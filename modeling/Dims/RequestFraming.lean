import Dims.ClientRequests
import Dims.GuardedRun

/-!
# Requests in a stream

Whether the requests of a client are registered once and answered once depends on how its
stream of messages comes in chunks, and on who answers.
-/

namespace Dims
open ByteCodec Serialize Codec

namespace ClientServer

/-- A message that is read as a request. -/
def IsRequest (message : CClientMessage) : Prop :=
  ∃ request, readRequest message = some (some request)

def requestOf (message : CClientMessage) : Option (Uint256 × NodeRequests) :=
  (readRequest message).join.map (message.header.id, ·)

def id (message : CClientMessage) : Uint256 := message.header.id

/-- An action that has been started is to answer. -/
def Owed (H : HashFunctions) (s : ClientServer) (token : Uint256) : Prop :=
  (∃ address, (address, token) ∈ s.balanceActions) ∨
    ∃ transaction ∈ s.clientTransactions, transaction.getHash H = token

/-- Of the messages, those that have been received are registered, each once; a registered
request is answered once or has its token waiting, and then it is to be handled, has an
answer or is owed one; and the connection lasts until all is answered. -/
structure Framed (H : HashFunctions) (messages : List CClientMessage) (s : ClientServer) : Prop where
  running : s.connection.status ≠ .failed
  registered : ∃ done later, messages = done ++ later ∧
    s.incoming = CClientMessage.codec.encodeAll later ∧ s.registered = done.filterMap requestOf
  answered : ∃ answers : List CClientMessage, (∀ message ∈ answers, CClientMessage.codec.Fits message) ∧
    s.sent = CClientMessage.codec.encodeAll answers ∧ (answers.map id).Nodup ∧
      ∀ token, token ∈ answers.map id ↔
        token ∈ s.registered.map Prod.fst ∧ token ∉ s.connection.tokens
  pending : ∀ token ∈ s.connection.tokens, (s.manager.getInfoRequest.lookup token).isSome ∨
    (s.manager.infoResponseRecord.lookup token).isSome ∨ s.Owed H token
  closed : s.connection.status = .closed → s.incoming = [] ∧ ∀ token, token ∉ s.connection.tokens

def chunk (s : ClientServer) (received : Option ℕ) : Bytes :=
  received.elim [] fun size => s.incoming.take (min size maxBufferSize)

def rest (s : ClientServer) (received : Option ℕ) : Bytes :=
  received.elim s.incoming fun size => s.incoming.drop (min size maxBufferSize)

def tokensWith (s : ClientServer) (now : List CClientMessage) : OrderedSet Uint256 :=
  (now.map id).foldl OrderedSet.insert s.connection.tokens

def answersTo (m : CClientRequestsManager) (tokens : List Uint256) : List CClientMessage :=
  tokens.filterMap fun token => (m.infoResponseRecord.lookup token).map (ClientResponse.message token)

/-- The answers that are there, with those to new messages. -/
def due (s : ClientServer) (now : List CClientMessage) : List CClientMessage :=
  answersTo s.manager (s.tokensWith now).elements

/-- Handling the request leads to an answer with its token. -/
def Answers : NodeRequests → Prop
  | .monitorInfoReq _ | .transactionMessage _ => False
  | _ => True

/-- A transaction with this hash is to be handled; the answer to it has the hash as token. -/
def Submits (H : HashFunctions) (m : CClientRequestsManager) (hash : Uint256) : Prop :=
  ∃ token transaction, m.getInfoRequest.lookup token = some (.transactionMessage transaction) ∧
    transaction.getHash H = hash

/-- The condition of a step: what is received ends with a message; the answers that are there
fit into the push buffer and the socket can be written to; a request without an answer is left
if there is more to be received; and only requests that are answered are handled. -/
def Frames (H : HashFunctions) (s : ClientServer) : ServerEvent → Prop
  | .run received writable => s.connection.status = .running →
    ∃ now : List CClientMessage, (∀ message ∈ now, CClientMessage.codec.Fits message) ∧
      s.chunk received = CClientMessage.codec.encodeAll now ∧
      (CClientMessage.codec.encodeAll (s.due now)).length ≤ maxBufferSize ∧
      (s.due now ≠ [] → writable = true) ∧
      ((∀ token ∈ s.tokensWith now, (s.manager.infoResponseRecord.lookup token).isSome) →
        s.rest received = [])
  | .processRequests _ => ∀ token ∈ s.connection.tokens, ∀ request,
    s.manager.getInfoRequest.lookup token = some request →
      (s.manager.infoResponseRecord.lookup token).isSome ∨ s.Owed H token ∨ Answers request ∨
        Submits H s.manager token
  | _ => True

/-- Other connections have other tokens. -/
def Apart (messages : List CClientMessage) : ServerEvent → Prop
  | .otherRequest token _ | .otherResponse token => token ∉ messages.map id
  | _ => True

/-- The condition under which nothing is registered again, whatever the messages are: a
buffer that is handled again has no request before its message of unknown kind that does not
wait any more, and what is received starts with a message. -/
def Unrepeated (messages : List CClientMessage) (s : ClientServer) : ServerEvent → Prop
  | .run received _ => s.connection.status = .running →
    match received with
    | none => ∀ request ∈ (readRequests s.connection.pullBuffer.length s.connection.pullBuffer).1,
      (s.manager.getInfoRequest.lookup request.1).isSome
    | some _ => ∃ later, later <:+ messages ∧ s.incoming = CClientMessage.codec.encodeAll later
  | _ => True

theorem readRequests_nil (steps : ℕ) : readRequests steps [] = ([], .eof) := by
  cases steps <;> rfl

theorem readRequests_succ {steps : ℕ} {bytes : Bytes} (h : bytes ≠ []) :
    readRequests (steps + 1) bytes =
      match CClientMessage.codec.decode bytes with
      | none => ([], .failure)
      | some (message, rest) =>
        match readRequest message with
        | none => ([], .failure)
        | some none => ([], .unknownKind)
        | some (some request) =>
          ((message.header.id, request) :: (readRequests steps rest).1,
            (readRequests steps rest).2) := by
  cases bytes with
  | nil => exact absurd rfl h
  | cons b bytes => rfl

theorem readRequests_cut {part : Bytes} (hcut : CClientMessage.codec.Cut part) {steps : ℕ}
    (hsteps : part.length ≤ steps) : readRequests steps part = ([], .failure) := by
  cases steps with
  | zero => exact absurd (List.length_eq_zero_iff.mp (Nat.le_zero.mp hsteps)) hcut.1
  | succ steps =>
    rw [readRequests_succ hcut.1, hcut.decode_eq_none CClientMessage.extends_codec]

theorem requestOf_eq {message : CClientMessage} {request : NodeRequests}
    (h : readRequest message = some (some request)) :
    requestOf message = some (message.header.id, request) := by
  rw [requestOf, h]
  rfl

section Reading

variable {message : CClientMessage} {now : List CClientMessage} {tail : Bytes} {steps : ℕ}

theorem readRequests_message (hfits : CClientMessage.codec.Fits message)
    (hsteps : (CClientMessage.codec.encode message ++ tail).length ≤ steps) :
    ∃ steps', tail.length ≤ steps' ∧
      readRequests steps (CClientMessage.codec.encode message ++ tail) =
        match readRequest message with
        | none => ([], .failure)
        | some none => ([], .unknownKind)
        | some (some request) =>
          ((message.header.id, request) :: (readRequests steps' tail).1,
            (readRequests steps' tail).2) := by
  have hlength := CClientMessage.length_encode message
  rw [List.length_append] at hsteps
  cases steps with
  | zero => omega
  | succ steps' =>
    refine ⟨steps', by omega, ?_⟩
    rw [readRequests_succ, CClientMessage.codec.decode_encode message tail hfits]
    exact fun hnil => CClientMessage.encode_ne_nil message (List.append_eq_nil_iff.mp hnil).1

theorem readRequests_whole (hfits : ∀ message ∈ now, CClientMessage.codec.Fits message)
    (hnow : ∀ message ∈ now, IsRequest message)
    (hsteps : (CClientMessage.codec.encodeAll now ++ tail).length ≤ steps) :
    ∃ steps', tail.length ≤ steps' ∧
      readRequests steps (CClientMessage.codec.encodeAll now ++ tail) =
        (now.filterMap requestOf ++ (readRequests steps' tail).1, (readRequests steps' tail).2) := by
  induction now generalizing steps with
  | nil => exact ⟨steps, hsteps, rfl⟩
  | cons message now ih =>
    obtain ⟨hfirst, hfits⟩ := List.forall_mem_cons.mp hfits
    obtain ⟨⟨request, hrequest⟩, hnow⟩ := List.forall_mem_cons.mp hnow
    rw [encodeAll_cons, List.append_assoc] at hsteps ⊢
    obtain ⟨steps', hsteps', heq⟩ := readRequests_message hfirst hsteps
    obtain ⟨steps'', hsteps'', hrest⟩ := ih hfits hnow hsteps'
    refine ⟨steps'', hsteps'', ?_⟩
    rw [heq, hrequest]
    simp only [hrest, List.filterMap_cons, requestOf_eq hrequest, List.cons_append]

/-- Of whole messages, cut or not, the first ones are read. -/
theorem exists_readRequests (hfits : ∀ message ∈ now, CClientMessage.codec.Fits message)
    (htail : tail = [] ∨ CClientMessage.codec.Cut tail)
    (hsteps : (CClientMessage.codec.encodeAll now ++ tail).length ≤ steps) :
    ∃ first, first <+: now ∧ (readRequests steps (CClientMessage.codec.encodeAll now ++ tail)).1 =
      first.filterMap requestOf := by
  induction now generalizing steps with
  | nil =>
    refine ⟨[], List.prefix_rfl, ?_⟩
    rw [encodeAll_nil, List.nil_append] at hsteps ⊢
    rcases htail with rfl | hcut
    · rw [readRequests_nil]
      rfl
    · rw [readRequests_cut hcut hsteps]
      rfl
  | cons message now ih =>
    obtain ⟨hfirst, hfits⟩ := List.forall_mem_cons.mp hfits
    rw [encodeAll_cons, List.append_assoc] at hsteps ⊢
    obtain ⟨steps', hsteps', heq⟩ := readRequests_message hfirst hsteps
    rw [heq]
    split
    · exact ⟨[], List.nil_prefix, rfl⟩
    · exact ⟨[], List.nil_prefix, rfl⟩
    case h_3 request hrequest =>
      obtain ⟨first, hprefix, hrest⟩ := ih hfits hsteps'
      refine ⟨message :: first, List.cons_prefix_cons.mpr ⟨rfl, hprefix⟩, ?_⟩
      simp only [hrest, List.filterMap_cons, requestOf_eq hrequest]

theorem map_fst_filterMap_requestOf (hnow : ∀ message ∈ now, IsRequest message) :
    (now.filterMap requestOf).map Prod.fst = now.map id := by
  induction now with
  | nil => rfl
  | cons message now ih =>
    obtain ⟨⟨request, hrequest⟩, hnow⟩ := List.forall_mem_cons.mp hnow
    simp only [List.filterMap_cons, requestOf_eq hrequest, List.map_cons, ih hnow, id]

theorem sublist_map_fst_filterMap_requestOf (now : List CClientMessage) :
    ((now.filterMap requestOf).map Prod.fst).Sublist (now.map id) := by
  induction now with
  | nil => exact List.Sublist.refl _
  | cons message now ih =>
    rw [List.filterMap_cons, List.map_cons]
    cases hread : requestOf message with
    | none => exact ih.cons _
    | some request =>
      obtain ⟨nodeRequest, -, rfl⟩ := Option.map_eq_some_iff.mp hread
      exact ih.cons_cons _

end Reading

/-- What registering requests leaves. -/
structure Registers (requests : List (Uint256 × NodeRequests)) (s s' : ClientServer) : Prop where
  rest : s' = { s with
    manager := { s.manager with getInfoRequest := s'.manager.getInfoRequest }
    connection := { s.connection with
      tokens := (requests.map Prod.fst).foldl OrderedSet.insert s.connection.tokens }
    registered := s'.registered }
  waiting : ∀ token, (s'.manager.getInfoRequest.lookup token).isSome ↔
    token ∈ requests.map Prod.fst ∨ (s.manager.getInfoRequest.lookup token).isSome
  added : ∃ added, added.Sublist requests ∧ s'.registered = s.registered ++ added ∧
    ∀ request ∈ added, s.manager.getInfoRequest.lookup request.1 = none
  all : (∀ request ∈ requests, s.manager.getInfoRequest.lookup request.1 = none) →
    (requests.map Prod.fst).Nodup → s'.registered = s.registered ++ requests

theorem registers_foldl (requests : List (Uint256 × NodeRequests)) (s : ClientServer) :
    Registers requests s (requests.foldl register s) := by
  induction requests generalizing s with
  | nil =>
    refine ⟨rfl, fun token => by simp, ⟨[], List.Sublist.refl _, by simp, by simp⟩, fun _ _ => ?_⟩
    exact (List.append_nil _).symm
  | cons request requests ih =>
    obtain ⟨hrest, hwaiting, ⟨added, hsublist, hadded, hnew⟩, hall⟩ := ih (s.register request)
    have hlookup : ∀ token, ((s.register request).manager.getInfoRequest.lookup token).isSome ↔
        token = request.1 ∨ (s.manager.getInfoRequest.lookup token).isSome := fun token =>
      OrderedMap.isSome_lookup_insertNew
    rw [List.foldl_cons]
    refine ⟨hrest, fun token => ?_, ?_, fun hnone hnodup => ?_⟩
    · rw [hwaiting, hlookup, List.map_cons, List.mem_cons, or_left_comm, or_assoc]
    · have hold : ∀ r ∈ added, s.manager.getInfoRequest.lookup r.1 = none := fun r hr => by
        have hnone := hnew r hr
        rw [← Option.not_isSome_iff_eq_none, hlookup] at hnone
        exact Option.not_isSome_iff_eq_none.mp fun hsome => hnone (.inr hsome)
      by_cases hsome : (s.manager.getInfoRequest.lookup request.1).isSome
      · refine ⟨added, hsublist.cons _, ?_, hold⟩
        rw [hadded]
        simp only [register, if_pos hsome]
      · refine ⟨request :: added, hsublist.cons_cons _, ?_, ?_⟩
        · rw [hadded]
          simp only [register, if_neg hsome, List.append_assoc, List.singleton_append]
        · exact List.forall_mem_cons.mpr ⟨Option.not_isSome_iff_eq_none.mp hsome, hold⟩
    · obtain ⟨hfirst, hnone⟩ := List.forall_mem_cons.mp hnone
      obtain ⟨hnotin, hnodup⟩ := List.nodup_cons.mp hnodup
      rw [hall (fun r hr => ?_) hnodup]
      · have hnot : ¬(s.manager.getInfoRequest.lookup request.1).isSome := by simp [hfirst]
        simp only [register, if_neg hnot, List.append_assoc, List.singleton_append]
      · rw [← Option.not_isSome_iff_eq_none, hlookup, not_or]
        refine ⟨fun heq => hnotin ?_, Option.not_isSome_iff_eq_none.mpr (hnone r hr)⟩
        rw [← heq]
        exact List.mem_map_of_mem hr

theorem Answering.foldl_of_thrown (tokens : List Uint256) {a : Answering} (h : a.thrown = true) :
    tokens.foldl Answering.answer a = a := by
  induction tokens with
  | nil => rfl
  | cons token tokens ih =>
    have hsame : a.answer token = a := if_pos h
    rw [List.foldl_cons, hsame, ih]

/-- The answers that fit are pushed, and are not kept; where they do not fit the stream throws. -/
structure Pushes (tokens : List Uint256) (a a' : Answering) : Prop where
  thrown : a'.thrown = true ↔ maxBufferSize <
    (a.pushed ++ CClientMessage.codec.encodeAll (answersTo a.manager tokens)).length
  pushed : a'.thrown = false →
    a'.pushed = a.pushed ++ CClientMessage.codec.encodeAll (answersTo a.manager tokens)
  toRemove : a'.thrown = false →
    a'.toRemove = a.toRemove ++ (answersTo a.manager tokens).map id
  requests : a'.manager.getInfoRequest = a.manager.getInfoRequest
  responses : a'.thrown = false → ∀ token, a'.manager.infoResponseRecord.lookup token =
    if token ∈ tokens then none else a.manager.infoResponseRecord.lookup token

theorem answersTo_congr {m m' : CClientRequestsManager} {tokens : List Uint256}
    (h : ∀ token ∈ tokens, m'.infoResponseRecord.lookup token = m.infoResponseRecord.lookup token) :
    answersTo m' tokens = answersTo m tokens :=
  List.filterMap_congr fun token htoken => by rw [h token htoken]

theorem pushes_answer {a : Answering} (hthrown : a.thrown = false)
    (hsize : a.pushed.length ≤ maxBufferSize) (token : Uint256) :
    Pushes [token] a (a.answer token) := by
  unfold Answering.answer
  rw [if_neg (by rw [hthrown]; exact Bool.false_ne_true), CClientRequestsManager.getResponse]
  have hanswers : answersTo a.manager [token] =
      ((a.manager.infoResponseRecord.lookup token).map (ClientResponse.message token)).toList := by
    rw [answersTo, List.filterMap_cons, List.filterMap_nil]
    cases a.manager.infoResponseRecord.lookup token <;> rfl
  cases hresponse : a.manager.infoResponseRecord.lookup token with
  | none =>
    rw [hresponse] at hanswers
    simp only [Option.map_none, Option.toList_none] at hanswers ⊢
    refine ⟨?_, fun _ => ?_, fun _ => ?_, rfl, fun _ other => ?_⟩
    · rw [hanswers, hthrown, encodeAll_nil, List.append_nil]
      exact iff_of_false Bool.false_ne_true (Nat.not_lt_of_le hsize)
    · rw [hanswers, encodeAll_nil, List.append_nil]
    · rw [hanswers, List.map_nil, List.append_nil]
    · by_cases hother : other = token
      · rw [hother, if_pos (List.mem_singleton_self _), hresponse]
      · rw [if_neg fun hin => hother (List.mem_singleton.mp hin)]
  | some response =>
    rw [hresponse] at hanswers
    simp only [Option.map_some, Option.toList_some] at hanswers ⊢
    split
    case isTrue hfits =>
      refine ⟨?_, fun _ => ?_, fun _ => ?_, rfl, fun _ other => ?_⟩
      · rw [hanswers, encodeAll_cons, encodeAll_nil, List.append_nil]
        exact iff_of_false Bool.false_ne_true (Nat.not_lt_of_le hfits)
      · rw [hanswers, encodeAll_cons, encodeAll_nil, List.append_nil]
      · rw [hanswers, List.map_cons, List.map_nil, id, ClientResponse.id_message]
      · by_cases hother : other = token
        · rw [hother, if_pos (List.mem_singleton_self _), OrderedMap.lookup_erase_self]
        · rw [if_neg fun hin => hother (List.mem_singleton.mp hin),
            OrderedMap.lookup_erase_of_ne hother]
    case isFalse hlarge =>
      refine ⟨?_, fun h => ?_, fun h => ?_, rfl, fun h => ?_⟩
      · rw [hanswers, encodeAll_cons, encodeAll_nil, List.append_nil]
        exact iff_of_true rfl (Nat.lt_of_not_le hlarge)
      all_goals cases h

theorem pushes_foldl {tokens : List Uint256} (hnodup : tokens.Nodup) {a : Answering}
    (hthrown : a.thrown = false) (hsize : a.pushed.length ≤ maxBufferSize) :
    Pushes tokens a (tokens.foldl Answering.answer a) := by
  induction tokens generalizing a with
  | nil =>
    refine ⟨?_, fun _ => ?_, fun _ => ?_, rfl, fun _ token => ?_⟩
    · simp only [List.foldl_nil, hthrown, answersTo, List.filterMap_nil, encodeAll_nil,
        List.append_nil]
      exact iff_of_false Bool.false_ne_true (Nat.not_lt_of_le hsize)
    · simp [answersTo]
    · simp [answersTo]
    · simp
  | cons token tokens ih =>
    obtain ⟨hnotin, hnodup⟩ := List.nodup_cons.mp hnodup
    have hfirst := pushes_answer hthrown hsize token
    have hsplit : answersTo a.manager (token :: tokens) =
        answersTo a.manager [token] ++ answersTo a.manager tokens :=
      List.filterMap_append (l := [token])
    rw [List.foldl_cons]
    cases hnext : (a.answer token).thrown with
    | true =>
      rw [Answering.foldl_of_thrown tokens hnext]
      refine ⟨?_, fun h => ?_, fun h => ?_, hfirst.requests, fun h => ?_⟩
      · refine iff_of_true hnext (lt_of_lt_of_le (hfirst.thrown.mp hnext) ?_)
        rw [hsplit, encodeAll_append, ← List.append_assoc]
        exact (List.prefix_append _ _).length_le
      all_goals
        rw [hnext] at h
        cases h
    | false =>
      have hpushed := hfirst.pushed hnext
      have hbound : (a.answer token).pushed.length ≤ maxBufferSize := by
        rw [hpushed]
        refine Nat.le_of_not_lt fun hlt => ?_
        rw [hfirst.thrown.mpr hlt] at hnext
        cases hnext
      have hrest := ih hnodup hnext hbound
      have hsame : answersTo (a.answer token).manager tokens = answersTo a.manager tokens :=
        answersTo_congr fun other hother => by
          rw [hfirst.responses hnext, if_neg]
          exact fun hin => hnotin (List.mem_singleton.mp hin ▸ hother)
      have hpieces : a.pushed ++ CClientMessage.codec.encodeAll
            (answersTo a.manager (token :: tokens)) =
          (a.answer token).pushed ++ CClientMessage.codec.encodeAll
            (answersTo (a.answer token).manager tokens) := by
        rw [hsplit, hsame, hpushed, encodeAll_append, List.append_assoc]
      refine ⟨?_, fun h => ?_, fun h => ?_, hrest.requests.trans hfirst.requests, fun h other => ?_⟩
      · rw [hrest.thrown, hpieces]
      · rw [hrest.pushed h, hpieces]
      · rw [hrest.toRemove h, hfirst.toRemove hnext, hsame, hsplit, List.map_append,
          List.append_assoc]
      · rw [hrest.responses h, hfirst.responses hnext]
        by_cases hin : other ∈ tokens
        · rw [if_pos hin, if_pos (List.mem_cons_of_mem _ hin)]
        · simp only [hin, if_false, List.mem_cons, List.not_mem_nil, or_false]

section Runs

variable {H : HashFunctions} {messages now later : List CClientMessage} {s s' : ClientServer}

theorem mem_map_id_answersTo {m : CClientRequestsManager} {tokens : List Uint256} {token : Uint256} :
    token ∈ (answersTo m tokens).map id ↔
      token ∈ tokens ∧ (m.infoResponseRecord.lookup token).isSome := by
  simp only [answersTo, List.mem_map, List.mem_filterMap, Option.map_eq_some_iff]
  constructor
  · rintro ⟨_, ⟨token', htoken, response, hresponse, rfl⟩, rfl⟩
    rw [id, ClientResponse.id_message]
    exact ⟨htoken, Option.isSome_iff_exists.mpr ⟨response, hresponse⟩⟩
  · rintro ⟨htoken, hsome⟩
    obtain ⟨response, hresponse⟩ := Option.isSome_iff_exists.mp hsome
    exact ⟨_, ⟨token, htoken, response, hresponse, rfl⟩, response.id_message token⟩

theorem nodup_map_id_answersTo {m : CClientRequestsManager} {tokens : List Uint256}
    (h : tokens.Nodup) : ((answersTo m tokens).map id).Nodup := by
  have hsublist : ((answersTo m tokens).map id).Sublist tokens := by
    clear h
    induction tokens with
    | nil => exact List.Sublist.refl _
    | cons token tokens ih =>
      rw [answersTo, List.filterMap_cons]
      cases m.infoResponseRecord.lookup token with
      | none => exact ih.cons _
      | some response =>
        rw [Option.map_some, List.map_cons, id, ClientResponse.id_message]
        exact ih.cons_cons _
  exact hsublist.nodup h

theorem nodup_elements (set : OrderedSet Uint256) : set.elements.Nodup :=
  set.sorted.imp fun hlt => hlt.ne

/-- What handling whole requests leaves. -/
structure Handled (now : List CClientMessage) (s s' : ClientServer) : Prop where
  failed : s'.connection.status = .failed ↔ maxBufferSize <
    (CClientMessage.codec.encodeAll (s.due now)).length
  status : s'.connection.status ≠ .failed → s'.connection.status = s.connection.status
  rest : s'.connection.status ≠ .failed → s' = { s with
    manager := s'.manager
    connection := ⟨s'.connection.tokens, [], CClientMessage.codec.encodeAll (s.due now),
      s.connection.status⟩
    registered := s'.registered }
  waiting : s'.connection.status ≠ .failed → ∀ token,
    (s'.manager.getInfoRequest.lookup token).isSome ↔
      token ∈ now.map id ∨ (s.manager.getInfoRequest.lookup token).isSome
  registered : s'.connection.status ≠ .failed →
    (∀ message ∈ now, s.manager.getInfoRequest.lookup (id message) = none) → (now.map id).Nodup →
      s'.registered = s.registered ++ now.filterMap requestOf
  tokens : s'.connection.status ≠ .failed → ∀ token, token ∈ s'.connection.tokens ↔
    token ∈ s.tokensWith now ∧ s.manager.infoResponseRecord.lookup token = none
  responses : s'.connection.status ≠ .failed → ∀ token,
    s'.manager.infoResponseRecord.lookup token =
      if token ∈ s.tokensWith now then none else s.manager.infoResponseRecord.lookup token

theorem handled_handleIncommingBuffor (hstatus : s.connection.status = .running)
    (hfits : ∀ message ∈ now, CClientMessage.codec.Fits message)
    (hnow : ∀ message ∈ now, IsRequest message)
    (hpull : s.connection.pullBuffer = CClientMessage.codec.encodeAll now) :
    Handled now s s.handleIncommingBuffor := by
  obtain ⟨steps, -, hread⟩ := @readRequests_whole now [] _ hfits hnow le_rfl
  rw [List.append_nil, readRequests_nil, List.append_nil] at hread
  have hregisters := registers_foldl (now.filterMap requestOf) s
  rw [handleIncommingBuffor, hpull, hread]
  dsimp only
  generalize (now.filterMap requestOf).foldl register s = t at hregisters ⊢
  obtain ⟨hrest, hwaiting, -, hall⟩ := hregisters
  rw [map_fst_filterMap_requestOf hnow] at hrest hwaiting hall
  have htokens : t.connection.tokens = s.tokensWith now := by rw [hrest]; rfl
  have hresponses : t.manager.infoResponseRecord = s.manager.infoResponseRecord := by rw [hrest]
  have hstatus' : t.connection.status = .running := by rw [hrest]; exact hstatus
  have hpushes := @pushes_foldl t.connection.tokens.elements (nodup_elements _)
    ⟨t.manager, [], [], false⟩ rfl (Nat.zero_le _)
  have hanswers : answersTo t.manager (s.tokensWith now).elements =
      s.due now :=
    answersTo_congr fun token _ => by rw [hresponses]
  generalize t.connection.tokens.elements.foldl Answering.answer ⟨t.manager, [], [], false⟩ = a
    at hpushes ⊢
  obtain ⟨hthrown, hpushed, hremove, hrequests, hlookup⟩ := hpushes
  simp only [List.nil_append, htokens, hanswers] at hthrown hpushed hremove hlookup
  cases ha : a.thrown with
  | true =>
    rw [if_pos rfl]
    refine ⟨iff_of_true rfl (hthrown.mp ha), ?_, ?_, ?_, ?_, ?_, ?_⟩
    all_goals exact fun hrunning => absurd rfl hrunning
  | false =>
    rw [if_neg Bool.false_ne_true]
    refine ⟨?_, fun _ => ?_, fun _ => ?_, fun _ token => ?_, fun _ hnone hnodup => ?_,
      fun _ token => ?_, fun _ token => ?_⟩
    · refine iff_of_false (fun hfailed => ?_) fun hlarge => ?_
      · have hfailed : t.connection.status = .failed := hfailed
        rw [hstatus'] at hfailed
        cases hfailed
      · rw [hthrown.mpr hlarge] at ha
        cases ha
    · exact hstatus'.trans hstatus.symm
    · rw [hrest, hpushed ha]
    · show (a.manager.getInfoRequest.lookup token).isSome ↔ _
      rw [hrequests]
      exact hwaiting token
    · refine hall (fun request hrequest => ?_) hnodup
      obtain ⟨message, hmessage, hread⟩ := List.mem_filterMap.mp hrequest
      obtain ⟨nodeRequest, -, rfl⟩ := Option.map_eq_some_iff.mp hread
      exact hnone message hmessage
    · show token ∈ a.toRemove.foldl OrderedSet.erase t.connection.tokens ↔ _
      rw [OrderedSet.mem_foldl_erase, htokens, hremove ha, due, mem_map_id_answersTo, not_and]
      refine and_congr_right fun hin => ?_
      rw [Option.not_isSome_iff_eq_none]
      exact forall_prop_of_true hin
    · show a.manager.infoResponseRecord.lookup token = _
      rw [hlookup ha, hresponses]
      rfl

theorem status_of_cut (hfits : ∀ message ∈ now, CClientMessage.codec.Fits message)
    (hnow : ∀ message ∈ now, IsRequest message) {part : Bytes} (hcut : CClientMessage.codec.Cut part)
    (hpull : s.connection.pullBuffer = CClientMessage.codec.encodeAll now ++ part) :
    s.handleIncommingBuffor.connection.status = .failed := by
  obtain ⟨steps, hsteps, hread⟩ := @readRequests_whole now part _ hfits hnow le_rfl
  rw [readRequests_cut hcut hsteps] at hread
  rw [handleIncommingBuffor, hpull, hread]
  rfl

/-- What a run over whole requests leaves. -/
structure Ran (received : Option ℕ) (writable : Bool) (now : List CClientMessage)
    (s s' : ClientServer) : Prop where
  failed : s'.connection.status = .failed ↔ maxBufferSize <
    (CClientMessage.codec.encodeAll (s.due now)).length
  closed : s'.connection.status = .closed ↔ s'.connection.status ≠ .failed ∧
    ∀ token ∈ s.tokensWith now, (s.manager.infoResponseRecord.lookup token).isSome
  rest : s'.connection.status ≠ .failed → s'.incoming = s.rest received ∧
    s'.connection.pullBuffer = [] ∧ s'.balanceActions = s.balanceActions ∧
    s'.clientTransactions = s.clientTransactions
  sent : s'.connection.status ≠ .failed → s'.sent =
    s.sent ++ (if writable then CClientMessage.codec.encodeAll (s.due now) else [])
  waiting : s'.connection.status ≠ .failed → ∀ token,
    (s'.manager.getInfoRequest.lookup token).isSome ↔
      token ∈ now.map id ∨ (s.manager.getInfoRequest.lookup token).isSome
  registered : s'.connection.status ≠ .failed →
    (∀ message ∈ now, s.manager.getInfoRequest.lookup (id message) = none) → (now.map id).Nodup →
      s'.registered = s.registered ++ now.filterMap requestOf
  tokens : s'.connection.status ≠ .failed → ∀ token, token ∈ s'.connection.tokens ↔
    token ∈ s.tokensWith now ∧ s.manager.infoResponseRecord.lookup token = none
  responses : s'.connection.status ≠ .failed → ∀ token,
    s'.manager.infoResponseRecord.lookup token =
      if token ∈ s.tokensWith now then none else s.manager.infoResponseRecord.lookup token

theorem pullBuffer_receive (hpull : s.connection.pullBuffer = []) (received : Option ℕ) :
    (received.elim s s.receive).connection.pullBuffer = s.chunk received := by
  cases received with
  | none => exact hpull
  | some size => rfl

theorem ran_iterate (hstatus : s.connection.status = .running)
    (hpull : s.connection.pullBuffer = []) (hfits : ∀ message ∈ now, CClientMessage.codec.Fits message)
    (hnow : ∀ message ∈ now, IsRequest message) (received : Option ℕ) (writable : Bool)
    (hchunk : s.chunk received = CClientMessage.codec.encodeAll now) :
    Ran received writable now s (s.iterate received writable) := by
  have hpull' := (pullBuffer_receive hpull received).trans hchunk
  have hincoming : (received.elim s s.receive).incoming = s.rest received := by
    cases received <;> rfl
  have hsame : received.elim s s.receive = { s with
      connection := { s.connection with
        pullBuffer := (received.elim s s.receive).connection.pullBuffer }
      incoming := (received.elim s s.receive).incoming } := by
    cases received <;> rfl
  have hhandled := @handled_handleIncommingBuffor now (received.elim s s.receive)
    (by rw [hsame]; exact hstatus) hfits hnow hpull'
  rw [iterate]
  rw [hsame] at hhandled ⊢
  rw [hincoming] at hhandled ⊢
  generalize handleIncommingBuffor { s with
    connection := { s.connection with
      pullBuffer := (received.elim s s.receive).connection.pullBuffer }
    incoming := s.rest received } = t at hhandled ⊢
  obtain ⟨hfailed, hkept, hrest, hwaiting, hregistered, htokens, hresponses⟩ := hhandled
  by_cases ht : t.connection.status = .failed
  · rw [if_pos ht]
    refine ⟨hfailed, ?_, ?_, ?_, ?_, ?_, ?_, ?_⟩
    · refine iff_of_false (fun hclosed => ?_) fun hand => hand.1 ht
      rw [ht] at hclosed
      cases hclosed
    all_goals exact fun hrunning => absurd ht hrunning
  · rw [if_neg ht]
    have hrunning : t.connection.status = .running := (hkept ht).trans hstatus
    have hempty : t.connection.tokens.elements = [] ↔
        ∀ token ∈ s.tokensWith now, (s.manager.infoResponseRecord.lookup token).isSome := by
      rw [List.eq_nil_iff_forall_not_mem]
      refine forall_congr' fun token => ?_
      have hmem : token ∈ t.connection.tokens.elements ↔ token ∈ s.tokensWith now ∧
          s.manager.infoResponseRecord.lookup token = none := htokens ht token
      rw [hmem, not_and]
      exact imp_congr_right fun _ => Option.ne_none_iff_isSome
    have hsent : t.sent = s.sent := by rw [hrest ht]
    have hbuffer : t.connection.pushBuffer = CClientMessage.codec.encodeAll (s.due now) := by
      rw [hrest ht]
      rfl
    have hkeeps : t.incoming = s.rest received ∧ t.connection.pullBuffer = [] ∧
        t.balanceActions = s.balanceActions ∧ t.clientTransactions = s.clientTransactions := by
      rw [hrest ht]
      exact ⟨rfl, rfl, rfl, rfl⟩
    have hwritten : (if writable then { t with sent := t.sent ++ t.connection.pushBuffer } else t) =
        { t with sent := s.sent ++
          (if writable then CClientMessage.codec.encodeAll (s.due now) else []) } := by
      cases writable with
      | true => rw [if_pos rfl, if_pos rfl, hsent, hbuffer]
      | false => rw [if_neg Bool.false_ne_true, if_neg Bool.false_ne_true, List.append_nil, ← hsent]
    dsimp only
    rw [hwritten]
    by_cases hdone : t.connection.tokens.elements = []
    · rw [if_pos hdone]
      refine ⟨iff_of_false (fun h => (nomatch h)) fun hlarge => ht (hfailed.mpr hlarge),
        iff_of_true rfl ⟨fun h => (nomatch h), hempty.mp hdone⟩, fun _ => hkeeps, fun _ => rfl,
        fun _ => hwaiting ht, fun _ => hregistered ht, fun _ => htokens ht, fun _ => hresponses ht⟩
    · rw [if_neg hdone]
      refine ⟨hfailed, iff_of_false (fun hclosed => ?_) fun hand => hdone (hempty.mpr hand.2),
        fun _ => hkeeps, fun _ => rfl, hwaiting, hregistered, htokens, hresponses⟩
      have hclosed : t.connection.status = .closed := hclosed
      rw [hrunning] at hclosed
      cases hclosed

theorem exists_chunk (hincoming : s.incoming = CClientMessage.codec.encodeAll later)
    (hfits : ∀ message ∈ later, CClientMessage.codec.Fits message) (received : Option ℕ) :
    ∃ now later' part, later = now ++ later' ∧
      s.chunk received = CClientMessage.codec.encodeAll now ++ part ∧
      (part = [] ∧ s.rest received = CClientMessage.codec.encodeAll later' ∨
        CClientMessage.codec.Cut part) := by
  cases received with
  | none => exact ⟨[], later, [], rfl, rfl, .inl ⟨rfl, hincoming⟩⟩
  | some size =>
    obtain ⟨now, later', part, rfl, htake, hpart⟩ :=
      exists_take_encodeAll hfits (min size maxBufferSize)
    refine ⟨now, later', part, rfl, ?_, ?_⟩
    · rw [← htake, ← hincoming]
      rfl
    · refine hpart.imp_left fun hnil => ⟨hnil, ?_⟩
      have hsplit := List.take_append_drop (min size maxBufferSize)
        (CClientMessage.codec.encodeAll (now ++ later'))
      rw [htake, hnil, List.append_nil, encodeAll_append] at hsplit
      change s.incoming.drop _ = _
      rw [hincoming, encodeAll_append]
      exact List.append_cancel_left hsplit

variable (messages) in
/-- What holds of a connection that has not failed, if all messages are requests. -/
structure Aligned (s : ClientServer) : Prop where
  received : ∃ done later, messages = done ++ later ∧
    s.incoming = CClientMessage.codec.encodeAll later ∧ s.registered = done.filterMap requestOf ∧
      ∀ message ∈ later, s.manager.getInfoRequest.lookup (id message) = none
  pull : s.connection.pullBuffer = []
  tokens : ∀ token ∈ s.connection.tokens, token ∈ s.registered.map Prod.fst

/-- A run of a connection that runs receives whole requests, or fails. -/
theorem Aligned.run_cases (ha : Aligned messages s) (hstatus : s.connection.status = .running)
    (hfits : ∀ message ∈ messages, CClientMessage.codec.Fits message)
    (hrequests : ∀ message ∈ messages, IsRequest message) (received : Option ℕ) (writable : Bool) :
    ∃ done now later, messages = done ++ (now ++ later) ∧
      s.incoming = CClientMessage.codec.encodeAll (now ++ later) ∧
      s.registered = done.filterMap requestOf ∧
      (∀ message ∈ now ++ later, s.manager.getInfoRequest.lookup (id message) = none) ∧
      (s.chunk received = CClientMessage.codec.encodeAll now ∧
          s.rest received = CClientMessage.codec.encodeAll later ∧
          Ran received writable now s (s.run received writable) ∨
        (∃ part, s.chunk received = CClientMessage.codec.encodeAll now ++ part ∧
          CClientMessage.codec.Cut part) ∧ (s.run received writable).connection.status = .failed) := by
  obtain ⟨done, later, rfl, hincoming, hregistered, hnew⟩ := ha.received
  have hfits' := fun message hin => hfits message (List.mem_append_right done hin)
  obtain ⟨now, later, part, rfl, hchunk, hpart⟩ := exists_chunk hincoming hfits' received
  have hfits'' := fun message hin => hfits' message (List.mem_append_left later hin)
  have hrequests' := fun message hin =>
    hrequests message (List.mem_append_right done (List.mem_append_left later hin))
  refine ⟨done, now, later, rfl, hincoming, hregistered, hnew, ?_⟩
  rw [run, if_pos hstatus]
  rcases hpart with ⟨rfl, hrest⟩ | hcut
  · rw [List.append_nil] at hchunk
    exact .inl ⟨hchunk, hrest, ran_iterate hstatus ha.pull hfits'' hrequests' received writable hchunk⟩
  · refine .inr ⟨⟨part, hchunk, hcut⟩, ?_⟩
    have hfailed := status_of_cut hfits'' hrequests' hcut
      ((pullBuffer_receive ha.pull received).trans hchunk)
    rw [iterate]
    dsimp only
    rw [if_pos hfailed]
    exact hfailed

/-- What handling requests leaves. -/
structure Handles (H : HashFunctions) (requests : List (Uint256 × NodeRequests))
    (s s' : ClientServer) : Prop where
  rest : s' = { s with
    manager := { s.manager with infoResponseRecord := s'.manager.infoResponseRecord }
    balanceActions := s'.balanceActions
    clientTransactions := s'.clientTransactions }
  answered : ∀ token, (s'.manager.infoResponseRecord.lookup token).isSome ∨ s'.Owed H token ↔
    ((s.manager.infoResponseRecord.lookup token).isSome ∨ s.Owed H token) ∨
      (∃ request, (token, request) ∈ requests ∧ Answers request) ∨
      ∃ other transaction, (other, .transactionMessage transaction) ∈ requests ∧
        transaction.getHash H = token

theorem isSome_lookup_answer {token other : Uint256} {response : ClientResponse} :
    ((s.answer other response).manager.infoResponseRecord.lookup token).isSome ↔
      token = other ∨ (s.manager.infoResponseRecord.lookup token).isSome :=
  OrderedMap.isSome_lookup_assign

theorem handles_handleClientRequest (H : HashFunctions) (env : RequestSurroundings)
    (s : ClientServer) (request : Uint256 × NodeRequests) :
    Handles H [request] s (handleClientRequest env s request) := by
  obtain ⟨other, nodeRequest⟩ := request
  have hanswer : ∀ response, Answers nodeRequest →
      (∀ transaction, nodeRequest ≠ .transactionMessage transaction) →
        Handles H [(other, nodeRequest)] s (s.answer other response) := by
    intro response hanswers hnot
    refine ⟨rfl, fun token => ?_⟩
    rw [isSome_lookup_answer]
    have howed : (s.answer other response).Owed H token ↔ s.Owed H token := Iff.rfl
    rw [howed]
    simp only [List.mem_singleton, Prod.mk.injEq]
    constructor
    · rintro ((rfl | hold) | hold)
      · exact .inr (.inl ⟨nodeRequest, ⟨rfl, rfl⟩, hanswers⟩)
      · exact .inl (.inl hold)
      · exact .inl (.inr hold)
    · rintro (hold | ⟨request, ⟨rfl, rfl⟩, -⟩ | ⟨_, transaction, ⟨-, heq⟩, -⟩)
      · exact hold.imp_left .inr
      · exact .inl (.inl rfl)
      · exact absurd heq.symm (hnot transaction)
  cases nodeRequest with
  | transactionStatusReq hash => exact hanswer _ trivial fun _ h => (nomatch h)
  | trackerStatsReq => exact hanswer _ trivial fun _ h => (nomatch h)
  | networkInfoReq => exact hanswer _ trivial fun _ h => (nomatch h)
  | monitorInfoReq monitorPubKey =>
    refine ⟨rfl, fun token => (or_iff_left ?_).symm⟩
    rintro (⟨request, hin, hanswers⟩ | ⟨_, transaction, hin, -⟩)
    · cases List.mem_singleton.mp hin
      exact hanswers
    · cases List.mem_singleton.mp hin
  | addressBalanceReq address =>
    refine ⟨rfl, fun token => ?_⟩
    simp only [handleClientRequest, Owed, List.mem_append, List.mem_singleton, Prod.mk.injEq]
    constructor
    · rintro (hold | ⟨address', hold | ⟨rfl, rfl⟩⟩ | hold)
      · exact .inl (.inl hold)
      · exact .inl (.inr (.inl ⟨address', hold⟩))
      · exact .inr (.inl ⟨_, ⟨rfl, rfl⟩, trivial⟩)
      · exact .inl (.inr (.inr hold))
    · rintro ((hold | ⟨address', hold⟩ | hold) | ⟨request, ⟨rfl, rfl⟩, -⟩ | ⟨_, _, ⟨-, heq⟩, -⟩)
      · exact .inl hold
      · exact .inr (.inl ⟨address', .inl hold⟩)
      · exact .inr (.inr hold)
      · exact .inr (.inl ⟨address, .inr ⟨rfl, rfl⟩⟩)
      · cases heq
  | transactionMessage transaction =>
    refine ⟨rfl, fun token => ?_⟩
    simp only [handleClientRequest, Owed, List.mem_append, List.mem_singleton, Prod.mk.injEq]
    constructor
    · rintro (hold | hold | ⟨transaction', hold | rfl, hhash⟩)
      · exact .inl (.inl hold)
      · exact .inl (.inr (.inl hold))
      · exact .inl (.inr (.inr ⟨transaction', hold, hhash⟩))
      · exact .inr (.inr ⟨other, _, ⟨rfl, rfl⟩, hhash⟩)
    · rintro ((hold | hold | ⟨transaction', hold, hhash⟩) | ⟨request, ⟨rfl, rfl⟩, hanswers⟩ |
        ⟨_, _, ⟨-, heq⟩, hhash⟩)
      · exact .inl hold
      · exact .inr (.inl hold)
      · exact .inr (.inr ⟨transaction', .inl hold, hhash⟩)
      · exact hanswers.elim
      · cases heq
        exact .inr (.inr ⟨_, .inr rfl, hhash⟩)

theorem handles_foldl (H : HashFunctions) (env : RequestSurroundings)
    (requests : List (Uint256 × NodeRequests)) (s : ClientServer) :
    Handles H requests s (requests.foldl (handleClientRequest env) s) := by
  induction requests generalizing s with
  | nil => exact ⟨rfl, fun token => by simp⟩
  | cons request requests ih =>
    have hfirst := handles_handleClientRequest H env s request
    have hrest := ih (handleClientRequest env s request)
    rw [List.foldl_cons]
    refine ⟨?_, fun token => ?_⟩
    · have hlast := hrest.rest
      have hnext := hfirst.rest
      generalize requests.foldl (handleClientRequest env) (handleClientRequest env s request) = t
        at hlast ⊢
      generalize handleClientRequest env s request = u at hlast hnext
      rw [hlast, hnext]
    · rw [hrest.answered, hfirst.answered]
      simp only [List.mem_cons, List.not_mem_nil, or_false]
      constructor
      · rintro ((hold | ⟨nodeRequest, hin, ha⟩ | ⟨other, transaction, hin, hhash⟩) |
          ⟨nodeRequest, hin, ha⟩ | ⟨other, transaction, hin, hhash⟩)
        · exact .inl hold
        · exact .inr (.inl ⟨nodeRequest, .inl hin, ha⟩)
        · exact .inr (.inr ⟨other, transaction, .inl hin, hhash⟩)
        · exact .inr (.inl ⟨nodeRequest, .inr hin, ha⟩)
        · exact .inr (.inr ⟨other, transaction, .inr hin, hhash⟩)
      · rintro (hold | ⟨nodeRequest, hin | hin, ha⟩ | ⟨other, transaction, hin | hin, hhash⟩)
        · exact .inl (.inl hold)
        · exact .inl (.inr (.inl ⟨nodeRequest, hin, ha⟩))
        · exact .inr (.inl ⟨nodeRequest, hin, ha⟩)
        · exact .inl (.inr (.inr ⟨other, transaction, hin, hhash⟩))
        · exact .inr (.inr ⟨other, transaction, hin, hhash⟩)

theorem answered_processRequests (H : HashFunctions) (env : RequestSurroundings) (s : ClientServer)
    (token : Uint256) :
    ((s.processRequests env).manager.infoResponseRecord.lookup token).isSome ∨
        (s.processRequests env).Owed H token ↔
      ((s.manager.infoResponseRecord.lookup token).isSome ∨ s.Owed H token) ∨
        (∃ request, s.manager.getInfoRequest.lookup token = some request ∧ Answers request) ∨
          Submits H s.manager token := by
  have h := (handles_foldl H env s.manager.getInfoRequest.entries s).answered token
  simp only [OrderedMap.mem_entries] at h
  exact h

theorem processRequests_rest (env : RequestSurroundings) (s : ClientServer) :
    s.processRequests env = { s with
      manager := ⟨.empty, (s.processRequests env).manager.infoResponseRecord⟩
      balanceActions := (s.processRequests env).balanceActions
      clientTransactions := (s.processRequests env).clientTransactions } := by
  have h := (handles_foldl ⟨fun _ => 0, fun _ => 0⟩ env s.manager.getInfoRequest.entries s).rest
  rw [processRequests]
  dsimp only
  rw [h]

theorem mem_tokensWith {token : Uint256} :
    token ∈ s.tokensWith now ↔ token ∈ now.map id ∨ token ∈ s.connection.tokens :=
  OrderedSet.mem_foldl_insert

theorem step_run_of_not_running (hstatus : s.connection.status ≠ .running) (received : Option ℕ)
    (writable : Bool) : s.step (.run received writable) = s :=
  if_neg hstatus

theorem fits_of_length_le {answers : List CClientMessage}
    (hsize : (CClientMessage.codec.encodeAll answers).length ≤ maxBufferSize) :
    ∀ message ∈ answers, CClientMessage.codec.Fits message := by
  intro message hin
  have hpayload := CClientMessage.length_encode message
  have hpart : (CClientMessage.codec.encode message).length ≤
      (CClientMessage.codec.encodeAll answers).length :=
    (List.sublist_flatten_of_mem (List.mem_map_of_mem hin)).length_le
  exact CClientMessage.fits_iff.mpr (hpayload.le.trans (hpart.trans (hsize.trans (by decide))))

section Ran

variable {received : Option ℕ} {writable : Bool}

theorem mem_map_id_due {token : Uint256} : token ∈ (s.due now).map id ↔
    token ∈ s.tokensWith now ∧ (s.manager.infoResponseRecord.lookup token).isSome :=
  mem_map_id_answersTo

theorem Ran.pending (hran : Ran received writable now s s') (h : Framed H messages s)
    (hlasts : s'.connection.status ≠ .failed) : ∀ token ∈ s'.connection.tokens,
      (s'.manager.getInfoRequest.lookup token).isSome ∨
        (s'.manager.infoResponseRecord.lookup token).isSome ∨ s'.Owed H token := by
  intro token htoken
  obtain ⟨hwith, hnone⟩ := (hran.tokens hlasts token).mp htoken
  rcases mem_tokensWith.mp hwith with hnow | hwaits
  · exact .inl ((hran.waiting hlasts token).mpr (.inl hnow))
  · rcases h.pending token hwaits with hrequest | hresponse | howed
    · exact .inl ((hran.waiting hlasts token).mpr (.inr hrequest))
    · rw [hnone] at hresponse
      cases hresponse
    · obtain ⟨-, -, hbalance, htransactions⟩ := hran.rest hlasts
      rw [Owed, hbalance, htransactions]
      exact .inr (.inr howed)

theorem Ran.closed_framed (hran : Ran received writable now s s')
    (hlasts : s'.connection.status ≠ .failed)
    (hlast : (∀ token ∈ s.tokensWith now, (s.manager.infoResponseRecord.lookup token).isSome) →
      s.rest received = []) :
    s'.connection.status = .closed → s'.incoming = [] ∧ ∀ token, token ∉ s'.connection.tokens := by
  intro hclosed
  obtain ⟨-, hall⟩ := hran.closed.mp hclosed
  refine ⟨(hran.rest hlasts).1.trans (hlast hall), fun token htoken => ?_⟩
  obtain ⟨hwith, hnone⟩ := (hran.tokens hlasts token).mp htoken
  have hsome := hall token hwith
  rw [hnone] at hsome
  cases hsome

variable (hran : Ran received writable now s s') (ha : Aligned messages s) (h : Framed H messages s)
variable (hnowRequests : ∀ message ∈ now, IsRequest message)
variable (hfresh : ∀ token ∈ now.map id, token ∉ s.registered.map Prod.fst)
variable (hnow : s'.connection.status ≠ .failed →
  s'.registered = s.registered ++ now.filterMap requestOf)
include hran ha h hnowRequests hfresh hnow

omit ha h hfresh hran in
theorem Ran.mem_registered (hlasts : s'.connection.status ≠ .failed) {token : Uint256} :
    token ∈ s'.registered.map Prod.fst ↔ token ∈ s.registered.map Prod.fst ∨ token ∈ now.map id := by
  rw [hnow hlasts, List.map_append, map_fst_filterMap_requestOf hnowRequests, List.mem_append]

theorem Ran.writable_of_framed (h' : Framed H messages s') (hdue : s.due now ≠ []) :
    writable = true := by
  have hlasts := h'.running
  obtain ⟨answers, hanswersFits, hsent, -, hanswers⟩ := h.answered
  obtain ⟨answers', hanswersFits', hsent', -, hanswers'⟩ := h'.answered
  by_contra hclosed
  rw [hran.sent hlasts, if_neg hclosed, List.append_nil, hsent] at hsent'
  obtain rfl : answers = answers' := encodeAll_injective
    (fun message _ => CClientMessage.encode_ne_nil message) hanswersFits hanswersFits' hsent'
  obtain ⟨message, hmessage⟩ := List.exists_mem_of_ne_nil _ hdue
  obtain ⟨htoken, hsome⟩ := mem_map_id_due.mp (List.mem_map_of_mem hmessage)
  have hin : id message ∈ answers.map id := by
    refine (hanswers' _).mpr ⟨?_, fun hwaits => ?_⟩
    · rw [Ran.mem_registered hnowRequests hnow hlasts]
      exact (mem_tokensWith.mp htoken).symm.imp_left (ha.tokens _)
    · rw [((hran.tokens hlasts _).mp hwaits).2] at hsome
      cases hsome
  obtain ⟨hregistered, hnot⟩ := (hanswers _).mp hin
  exact (mem_tokensWith.mp htoken).elim (fun hin => hfresh _ hin hregistered) hnot

theorem Ran.answered_framed
    (hsize : (CClientMessage.codec.encodeAll (s.due now)).length ≤ maxBufferSize)
    (hwritable : s.due now ≠ [] → writable = true) :
    ∃ answers : List CClientMessage, (∀ message ∈ answers, CClientMessage.codec.Fits message) ∧
      s'.sent = CClientMessage.codec.encodeAll answers ∧ (answers.map id).Nodup ∧
        ∀ token, token ∈ answers.map id ↔
          token ∈ s'.registered.map Prod.fst ∧ token ∉ s'.connection.tokens := by
  have hlasts := mt hran.failed.mp (Nat.not_lt_of_le hsize)
  obtain ⟨answers, hanswersFits, hsent, hanswersNodup, hanswers⟩ := h.answered
  refine ⟨answers ++ s.due now, fun message hmessage => ?_, ?_, ?_, fun token => ?_⟩
  · exact (List.mem_append.mp hmessage).elim (hanswersFits message) (fits_of_length_le hsize message)
  · rw [hran.sent hlasts, hsent, encodeAll_append]
    by_cases hnil : s.due now = []
    · rw [hnil, encodeAll_nil, ite_self]
    · rw [if_pos (hwritable hnil)]
  · rw [List.map_append, List.nodup_append]
    refine ⟨hanswersNodup, nodup_map_id_answersTo (nodup_elements _), ?_⟩
    rintro token hin _ hdueIn rfl
    obtain ⟨hregistered, hnot⟩ := (hanswers token).mp hin
    exact (mem_tokensWith.mp (mem_map_id_due.mp hdueIn).1).elim
      (fun hin => hfresh token hin hregistered) hnot
  · have hmem := @Ran.mem_registered now s s' hnowRequests hnow hlasts token
    have hregisters := ha.tokens token
    have hnew := hfresh token
    have hold := hanswers token
    have hnext := hran.tokens hlasts token
    rw [mem_tokensWith, ← Option.not_isSome_iff_eq_none] at hnext
    have hdue := @mem_map_id_due now s token
    rw [mem_tokensWith] at hdue
    rw [List.map_append, List.mem_append]
    clear hanswers hfresh hnow hran ha h hsize hwritable
    grind

end Ran

section Requests

variable (hfits : ∀ message ∈ messages, CClientMessage.codec.Fits message)
variable (hrequests : ∀ message ∈ messages, IsRequest message)
variable (hids : (messages.map id).Nodup)
include hfits hrequests hids

theorem Aligned.run (ha : Aligned messages s) (received : Option ℕ) (writable : Bool)
    (hlasts : (s.step (.run received writable)).connection.status ≠ .failed) :
    Aligned messages (s.step (.run received writable)) := by
  by_cases hstatus : s.connection.status = .running
  swap
  · rwa [step_run_of_not_running hstatus]
  change (s.run received writable).connection.status ≠ .failed at hlasts
  change Aligned messages (s.run received writable)
  obtain ⟨done, now, later, hsplit, -, hregistered, hnew, ⟨-, hrest, hran⟩ | ⟨-, hfailed⟩⟩ :=
    ha.run_cases hstatus hfits hrequests received writable
  swap
  · exact absurd hfailed hlasts
  obtain ⟨hincoming, hpull, -, -⟩ := hran.rest hlasts
  have hnodup : (now.map id ++ later.map id).Nodup := by
    rw [hsplit, List.map_append, List.map_append] at hids
    exact (List.nodup_append.mp hids).2.1
  have hnow : (s.run received writable).registered = s.registered ++ now.filterMap requestOf :=
    hran.registered hlasts (fun message hin => hnew message (List.mem_append_left later hin))
      (List.nodup_append.mp hnodup).1
  have hnowRequests : ∀ message ∈ now, IsRequest message := fun message hin =>
    hrequests message (by rw [hsplit]; exact List.mem_append_right _ (List.mem_append_left _ hin))
  refine ⟨⟨done ++ now, later, ?_, ?_, ?_, fun message hin => ?_⟩, hpull, fun token htoken => ?_⟩
  · rw [hsplit, List.append_assoc]
  · rw [hincoming, hrest]
  · rw [hnow, hregistered, List.filterMap_append]
  · rw [← Option.not_isSome_iff_eq_none, hran.waiting hlasts, not_or,
      Option.not_isSome_iff_eq_none]
    refine ⟨fun hin' => ?_, hnew message (List.mem_append_right now hin)⟩
    exact (List.nodup_append.mp hnodup).2.2 _ hin' _ (List.mem_map_of_mem hin) rfl
  · rw [hnow, List.map_append, map_fst_filterMap_requestOf hnowRequests, List.mem_append]
    exact (mem_tokensWith.mp ((hran.tokens hlasts token).mp htoken).1).symm.imp_left (ha.tokens token)

omit hfits hids in
theorem Aligned.mem_ids (ha : Aligned messages s) {token : Uint256}
    (htoken : token ∈ s.connection.tokens) : token ∈ messages.map id := by
  obtain ⟨done, later, hsplit, -, hregistered, -⟩ := ha.received
  have hin := ha.tokens token htoken
  rw [hregistered, map_fst_filterMap_requestOf fun message hmessage => hrequests message (by
    rw [hsplit]
    exact List.mem_append_left _ hmessage)] at hin
  rw [hsplit, List.map_append]
  exact List.mem_append_left _ hin

theorem Aligned.step (ha : Aligned messages s) (event : ServerEvent) (hapart : Apart messages event)
    (hlasts : (s.step event).connection.status ≠ .failed) : Aligned messages (s.step event) := by
  obtain ⟨done, later, hsplit, hincoming, hregistered, hnew⟩ := ha.received
  have hpull := ha.pull
  have htokens := ha.tokens
  cases event with
  | run received writable => exact ha.run hfits hrequests hids received writable hlasts
  | processRequests env =>
    change Aligned messages (s.processRequests env)
    rw [processRequests_rest]
    exact ⟨⟨done, later, hsplit, hincoming, hregistered, fun _ _ => rfl⟩, hpull, htokens⟩
  | setClientResponse token response =>
    exact ⟨⟨done, later, hsplit, hincoming, hregistered, hnew⟩, hpull, htokens⟩
  | otherRequest token request =>
    refine ⟨⟨done, later, hsplit, hincoming, hregistered, fun message hin => ?_⟩, hpull, htokens⟩
    have hne : id message ≠ token := by
      rintro rfl
      refine hapart (List.mem_map_of_mem ?_)
      rw [hsplit]
      exact List.mem_append_right _ hin
    exact (OrderedMap.lookup_insertNew_of_ne hne _).trans (hnew message hin)
  | otherResponse token =>
    simp only [ClientServer.step, CClientRequestsManager.getResponse]
    cases s.manager.infoResponseRecord.lookup token with
    | none => exact ha
    | some response =>
      exact ⟨⟨done, later, hsplit, hincoming, hregistered, hnew⟩, hpull, htokens⟩

theorem framed_run_iff (ha : Aligned messages s) (h : Framed H messages s)
    (hstatus : s.connection.status = .running) (received : Option ℕ) (writable : Bool) :
    Framed H messages (s.run received writable) ↔ s.Frames H (.run received writable) := by
  obtain ⟨done, now, later, hsplit, hincoming, hregistered, hnew, hcases⟩ :=
    ha.run_cases hstatus hfits hrequests received writable
  have hnowFits : ∀ message ∈ now, CClientMessage.codec.Fits message := fun message hin =>
    hfits message (by rw [hsplit]; exact List.mem_append_right _ (List.mem_append_left _ hin))
  have hnowRequests : ∀ message ∈ now, IsRequest message := fun message hin =>
    hrequests message (by rw [hsplit]; exact List.mem_append_right _ (List.mem_append_left _ hin))
  have hdoneRequests : ∀ message ∈ done, IsRequest message := fun message hin =>
    hrequests message (by rw [hsplit]; exact List.mem_append_left _ hin)
  rcases hcases with ⟨hchunk, hrest, hran⟩ | ⟨⟨part, hchunk, hcut⟩, hfailed⟩
  swap
  · refine iff_of_false (fun hframed => hframed.running hfailed) fun hframes => ?_
    obtain ⟨now', hnow', heq, -⟩ := hframes hstatus
    exact not_encodeAll_append_cut CClientMessage.extends_codec hnowFits hnow' hcut
      (heq.symm.trans hchunk)
  rw [hsplit, List.map_append, List.map_append] at hids
  obtain ⟨-, hnodup, hdisjoint⟩ := List.nodup_append.mp hids
  obtain ⟨hnowNodup, -, -⟩ := List.nodup_append.mp hnodup
  -- What is registered now was not registered before.
  have hfresh : ∀ token ∈ now.map id, token ∉ s.registered.map Prod.fst := by
    intro token hin hold
    rw [hregistered, map_fst_filterMap_requestOf hdoneRequests] at hold
    exact hdisjoint token hold token (List.mem_append_left _ hin) rfl
  have hnow : (s.run received writable).connection.status ≠ .failed →
      (s.run received writable).registered = s.registered ++ now.filterMap requestOf :=
    fun hlasts => hran.registered hlasts
      (fun message hin => hnew message (List.mem_append_left later hin)) hnowNodup
  constructor
  · intro hframed _
    have hlasts := hframed.running
    refine ⟨now, hnowFits, hchunk, Nat.le_of_not_lt (mt hran.failed.mpr hlasts), ?_, fun hall => ?_⟩
    · exact hran.writable_of_framed ha h hnowRequests hfresh hnow hframed
    · rw [← (hran.rest hlasts).1]
      exact (hframed.closed (hran.closed.mpr ⟨hlasts, hall⟩)).1
  · intro hframes
    obtain ⟨now', hnowFits', hchunk', hsize, hwritable, hlast⟩ := hframes hstatus
    obtain rfl : now = now' := encodeAll_injective
      (fun message _ => CClientMessage.encode_ne_nil message) hnowFits hnowFits'
      (hchunk.symm.trans hchunk')
    have hlasts := mt hran.failed.mp (Nat.not_lt_of_le hsize)
    refine ⟨hlasts, ⟨done ++ now, later, ?_, ?_, ?_⟩, ?_, hran.pending h hlasts,
      hran.closed_framed hlasts hlast⟩
    · rw [hsplit, List.append_assoc]
    · rw [(hran.rest hlasts).1, hrest]
    · rw [hnow hlasts, hregistered, List.filterMap_append]
    · exact hran.answered_framed ha h hnowRequests hfresh hnow hsize hwritable

omit hfits hrequests hids in
/-- A step that leaves the connection and its stream keeps what is framed, if what waits has an
answer or gets one. -/
theorem framed_iff_pending (h : Framed H messages s)
    (hrest : s'.connection = s.connection ∧ s'.incoming = s.incoming ∧ s'.sent = s.sent ∧
      s'.registered = s.registered) :
    Framed H messages s' ↔ ∀ token ∈ s.connection.tokens,
      (s'.manager.getInfoRequest.lookup token).isSome ∨
        (s'.manager.infoResponseRecord.lookup token).isSome ∨ s'.Owed H token := by
  obtain ⟨hconnection, hincoming, hsent, hregistered⟩ := hrest
  constructor
  · intro h' token htoken
    exact h'.pending token (by rwa [hconnection])
  · intro hpending
    refine ⟨?_, ?_, ?_, ?_, ?_⟩
    · rw [hconnection]
      exact h.running
    · rw [hincoming, hregistered]
      exact h.registered
    · rw [hsent, hregistered, hconnection]
      exact h.answered
    · rwa [hconnection]
    · rw [hconnection, hincoming]
      exact h.closed

omit hfits hrequests hids in
theorem framed_processRequests_iff (h : Framed H messages s) (env : RequestSurroundings) :
    Framed H messages (s.processRequests env) ↔ s.Frames H (.processRequests env) := by
  have hrest := processRequests_rest env s
  have hempty : (s.processRequests env).manager.getInfoRequest = .empty := by rw [hrest]
  rw [framed_iff_pending h (by rw [hrest]; exact ⟨rfl, rfl, rfl, rfl⟩)]
  refine forall_congr' fun token => imp_congr_right fun htoken => ?_
  rw [hempty, OrderedMap.lookup_empty, answered_processRequests]
  constructor
  · rintro (hnone | (hresponse | howed) | ⟨request, hrequest, hanswers⟩ | hsubmits) request' hrequest'
    · cases hnone
    · exact .inl hresponse
    · exact .inr (.inl howed)
    · obtain rfl := Option.some.inj (hrequest.symm.trans hrequest')
      exact .inr (.inr (.inl hanswers))
    · exact .inr (.inr (.inr hsubmits))
  · intro hframes
    rcases h.pending token htoken with hwaiting | hresponse | howed
    · obtain ⟨request, hrequest⟩ := Option.isSome_iff_exists.mp hwaiting
      rcases hframes request hrequest with hresponse | howed | hanswers | hsubmits
      · exact .inr (.inl (.inl hresponse))
      · exact .inr (.inl (.inr howed))
      · exact .inr (.inr (.inl ⟨request, hrequest, hanswers⟩))
      · exact .inr (.inr (.inr hsubmits))
    · exact .inr (.inl (.inl hresponse))
    · exact .inr (.inl (.inr howed))

theorem framed_step_iff (ha : s.connection.status ≠ .failed → Aligned messages s)
    (h : Framed H messages s) (event : ServerEvent) (hapart : Apart messages event) :
    Framed H messages (s.step event) ↔ s.Frames H event := by
  have ha := ha h.running
  cases event with
  | run received writable =>
    by_cases hstatus : s.connection.status = .running
    · exact framed_run_iff hfits hrequests hids ha h hstatus received writable
    · rw [step_run_of_not_running hstatus]
      exact iff_of_true h fun hrunning => absurd hrunning hstatus
  | processRequests env => exact framed_processRequests_iff h env
  | setClientResponse token response =>
    refine iff_of_true ?_ trivial
    refine (framed_iff_pending h ?_).mpr fun other hother => ?_
    · exact ⟨rfl, rfl, rfl, rfl⟩
    rcases h.pending other hother with hwaiting | hresponse | howed
    · exact .inl hwaiting
    · exact .inr (.inl (isSome_lookup_answer.mpr (.inr hresponse)))
    · exact .inr (.inr howed)
  | otherRequest token request =>
    refine iff_of_true ?_ trivial
    refine (framed_iff_pending h ?_).mpr fun other hother => ?_
    · exact ⟨rfl, rfl, rfl, rfl⟩
    exact (h.pending other hother).imp_left fun hwaiting =>
      OrderedMap.isSome_lookup_insertNew.mpr (.inr hwaiting)
  | otherResponse token =>
    refine iff_of_true ?_ trivial
    simp only [ClientServer.step, CClientRequestsManager.getResponse]
    cases s.manager.infoResponseRecord.lookup token with
    | none => exact h
    | some response =>
      simp only [Option.map_some]
      refine (framed_iff_pending h ?_).mpr fun other hother => ?_
      · exact ⟨rfl, rfl, rfl, rfl⟩
      have hne : other ≠ token := by
        rintro rfl
        exact hapart (ha.mem_ids hrequests hother)
      rw [OrderedMap.lookup_erase_of_ne hne]
      exact h.pending other hother

omit hfits hrequests hids in
theorem status_step_of_failed (hfailed : s.connection.status = .failed) (event : ServerEvent) :
    (s.step event).connection.status = .failed := by
  cases event with
  | run received writable =>
    rwa [step_run_of_not_running (by rw [hfailed]; exact fun h => (nomatch h))]
  | processRequests env =>
    change (s.processRequests env).connection.status = _
    rwa [processRequests_rest]
  | setClientResponse token response => exact hfailed
  | otherRequest token request => exact hfailed
  | otherResponse token =>
    simp only [ClientServer.step]
    split <;> exact hfailed

omit hfits hrequests hids in
theorem aligned_start : Aligned messages (start (CClientMessage.codec.encodeAll messages)) :=
  ⟨⟨[], messages, rfl, rfl, rfl, fun _ _ => rfl⟩, rfl, fun _ hin => absurd hin (List.not_mem_nil)⟩

omit hfits hrequests hids in
theorem framed_start : Framed H messages (start (CClientMessage.codec.encodeAll messages)) := by
  refine ⟨fun h => (nomatch h), ⟨[], messages, rfl, rfl, rfl⟩, ⟨[], ?_, rfl, List.nodup_nil, ?_⟩,
    ?_, fun h => (nomatch h)⟩
  · exact fun message hin => absurd hin List.not_mem_nil
  · exact fun token => iff_of_false List.not_mem_nil fun h => List.not_mem_nil h.1
  · exact fun token hin => absurd hin List.not_mem_nil

/-- Requests are registered once and answered once throughout a run if and only if each step
meets the condition. -/
theorem framed_throughout_iff {events : List ServerEvent}
    (hapart : ∀ event ∈ events, Apart messages event) :
    (∀ past, past <+: events → Framed H messages
        (GuardedRun.run step (start (CClientMessage.codec.encodeAll messages)) past)) ↔
      GuardedRun.Guarded step (Frames H) (start (CClientMessage.codec.encodeAll messages)) events := by
  refine @GuardedRun.always_iff_of_mem _ _ step (Frames H)
    (fun s => s.connection.status ≠ .failed → Aligned messages s) (Framed H messages)
    (Apart messages) (fun s event hevent ha hlasts => ?_)
    (fun s event hevent ha h => framed_step_iff hfits hrequests hids ha h event hevent) _ _ hapart
    (fun _ => aligned_start) framed_start
  exact (ha fun hfailed => hlasts (status_step_of_failed hfailed event)).step
    hfits hrequests hids event hevent hlasts

end Requests

variable (messages) in
/-- What is registered came before what is still to be received, and once. -/
structure Once (s : ClientServer) : Prop where
  split : ∃ done later, messages = done ++ later ∧
    s.incoming <:+ CClientMessage.codec.encodeAll later ∧
      ∀ token ∈ s.registered.map Prod.fst, token ∈ done.map id
  nodup : (s.registered.map Prod.fst).Nodup

theorem handleIncommingBuffor_rest : s.handleIncommingBuffor.incoming = s.incoming ∧
    s.handleIncommingBuffor.registered =
      ((readRequests s.connection.pullBuffer.length s.connection.pullBuffer).1.foldl
        register s).registered := by
  have hrest := (registers_foldl
    (readRequests s.connection.pullBuffer.length s.connection.pullBuffer).1 s).rest
  rw [handleIncommingBuffor]
  generalize readRequests s.connection.pullBuffer.length s.connection.pullBuffer = r at hrest ⊢
  dsimp only
  generalize r.1.foldl register s = t at hrest ⊢
  have hincoming : t.incoming = s.incoming := by rw [hrest]
  cases r.2 with
  | eof =>
    dsimp only
    split <;> exact ⟨hincoming, rfl⟩
  | unknownKind => exact ⟨hincoming, rfl⟩
  | failure => exact ⟨hincoming, rfl⟩

theorem iterate_rest (received : Option ℕ) (writable : Bool) :
    (s.iterate received writable).incoming = s.rest received ∧
      (s.iterate received writable).registered =
        ((received.elim s s.receive).handleIncommingBuffor).registered := by
  have hincoming : (received.elim s s.receive).handleIncommingBuffor.incoming = s.rest received := by
    rw [handleIncommingBuffor_rest.1]
    cases received <;> rfl
  rw [iterate]
  generalize (received.elim s s.receive).handleIncommingBuffor = t at hincoming ⊢
  dsimp only
  split
  · exact ⟨hincoming, rfl⟩
  · split <;> split <;> exact ⟨hincoming, rfl⟩

theorem exists_added_iterate (received : Option ℕ) (writable : Bool) :
    ∃ added, added.Sublist (readRequests (received.elim s s.receive).connection.pullBuffer.length
        (received.elim s s.receive).connection.pullBuffer).1 ∧
      (s.iterate received writable).registered = s.registered ++ added ∧
      ∀ request ∈ added, s.manager.getInfoRequest.lookup request.1 = none := by
  obtain ⟨added, hsublist, hadded, hnew⟩ := (registers_foldl
    (readRequests (received.elim s s.receive).connection.pullBuffer.length
      (received.elim s s.receive).connection.pullBuffer).1 (received.elim s s.receive)).added
  have hsame : (received.elim s s.receive).registered = s.registered ∧
      (received.elim s s.receive).manager = s.manager := by
    cases received <;> exact ⟨rfl, rfl⟩
  refine ⟨added, hsublist, ?_, fun request hin => ?_⟩
  · rw [(iterate_rest received writable).2, handleIncommingBuffor_rest.2, hadded, hsame.1]
  · rw [← hsame.2]
    exact hnew request hin

theorem suffix_of_encodeAll_suffix {later' : List CClientMessage} (h : later <:+ messages)
    (h' : later' <:+ messages)
    (hbytes : CClientMessage.codec.encodeAll later' <:+ CClientMessage.codec.encodeAll later) :
    later' <:+ later := by
  rcases List.suffix_or_suffix_of_suffix h' h with hsuffix | ⟨front, rfl⟩
  · exact hsuffix
  · have hlength := hbytes.length_le
    rw [encodeAll_append, List.length_append] at hlength
    cases front with
    | nil => exact List.suffix_rfl
    | cons message front =>
      have hpositive := CClientMessage.length_encode message
      rw [encodeAll_cons, List.length_append] at hlength
      omega

section Streams

variable (hfits : ∀ message ∈ messages, CClientMessage.codec.Fits message)
variable (hids : (messages.map id).Nodup)
include hfits hids

theorem Once.receive (ho : Once messages s) (size : ℕ) (writable : Bool)
    (hstart : ∃ later, later <:+ messages ∧ s.incoming = CClientMessage.codec.encodeAll later) :
    Once messages (s.iterate (some size) writable) := by
  obtain ⟨done, later, rfl, hsuffix, hold⟩ := ho.split
  obtain ⟨later', hlater', hincoming⟩ := hstart
  rw [hincoming] at hsuffix
  obtain ⟨between, rfl⟩ :=
    suffix_of_encodeAll_suffix (List.suffix_append done later) hlater' hsuffix
  have hfits' := fun message hin => hfits message (hlater'.subset hin)
  obtain ⟨now, later'', part, rfl, htake, hpart⟩ :=
    exists_take_encodeAll hfits' (min size maxBufferSize)
  have hrest := List.take_append_drop (min size maxBufferSize)
    (CClientMessage.codec.encodeAll (now ++ later''))
  rw [htake, encodeAll_append, List.append_assoc, List.append_cancel_left_eq] at hrest
  obtain ⟨first, hfirst, hread⟩ := exists_readRequests
    (fun message hin => hfits' message (List.mem_append_left later'' hin)) hpart le_rfl
  obtain ⟨added, hsublist, hadded, -⟩ := @exists_added_iterate s (some size) writable
  have hpull : s.incoming.take (min size maxBufferSize) =
      CClientMessage.codec.encodeAll now ++ part := by rw [hincoming, htake]
  change added.Sublist (readRequests (s.incoming.take _).length (s.incoming.take _)).1 at hsublist
  rw [hpull, hread] at hsublist
  have hids' : ((added.map Prod.fst)).Sublist (now.map id) :=
    (hsublist.map Prod.fst).trans ((sublist_map_fst_filterMap_requestOf first).trans
      (hfirst.sublist.map id))
  simp only [List.map_append] at hids
  obtain ⟨-, hnodup, hdisjoint⟩ := List.nodup_append.mp hids
  obtain ⟨-, hnodup, -⟩ := List.nodup_append.mp hnodup
  refine ⟨⟨done ++ between ++ now, later'', by simp only [List.append_assoc], ?_, ?_⟩, ?_⟩
  · rw [(iterate_rest (some size) writable).1]
    change s.incoming.drop _ <:+ _
    rw [hincoming, encodeAll_append]
    exact ⟨part, hrest⟩
  · intro token htoken
    rw [hadded, List.map_append, List.mem_append] at htoken
    simp only [List.map_append, List.mem_append]
    exact htoken.imp (fun hin => .inl (hold token hin)) (hids'.subset ·)
  · rw [hadded, List.map_append]
    refine List.nodup_append.mpr ⟨ho.nodup, hids'.nodup (List.nodup_append.mp hnodup).1, ?_⟩
    intro token hin token' hin'
    exact hdisjoint token (hold token hin) token' (List.mem_append_right _
      (List.mem_append_left _ (hids'.subset hin')))

theorem Once.step (ho : Once messages s) (event : ServerEvent)
    (hevent : Unrepeated messages s event) : Once messages (s.step event) := by
  cases event with
  | run received writable =>
    by_cases hstatus : s.connection.status = .running
    swap
    · rwa [step_run_of_not_running hstatus]
    have hevent := hevent hstatus
    change Once messages (s.run received writable)
    rw [run, if_pos hstatus]
    cases received with
    | some size => exact ho.receive hfits hids size writable hevent
    | none =>
      -- All that is read still waits.
      obtain ⟨added, hsublist, hadded, hnew⟩ := @exists_added_iterate s none writable
      have hnil : added = [] := List.eq_nil_iff_forall_not_mem.mpr fun request hin => by
        have hwaits := hevent request (hsublist.subset hin)
        rw [hnew request hin] at hwaits
        cases hwaits
      rw [hnil, List.append_nil] at hadded
      refine ⟨?_, ?_⟩
      · rw [(iterate_rest none writable).1, hadded]
        exact ho.split
      · rw [hadded]
        exact ho.nodup
  | processRequests env =>
    change Once messages (s.processRequests env)
    rw [processRequests_rest]
    exact ⟨ho.split, ho.nodup⟩
  | setClientResponse token response => exact ⟨ho.split, ho.nodup⟩
  | otherRequest token request => exact ⟨ho.split, ho.nodup⟩
  | otherResponse token =>
    simp only [ClientServer.step]
    split
    · exact ho
    · exact ⟨ho.split, ho.nodup⟩

/-- In a run whose steps meet the condition no request is registered again, whatever the
kinds of the messages are and wherever the last one is cut. -/
theorem nodup_registered_run {events : List ServerEvent}
    (hguarded : GuardedRun.Guarded step (Unrepeated messages)
      (start (CClientMessage.codec.encodeAll messages)) events) :
    ((GuardedRun.run step (start (CClientMessage.codec.encodeAll messages))
      events).registered.map Prod.fst).Nodup := by
  refine (@GuardedRun.Guarded.invariant _ _ step (Unrepeated messages) (Once messages)
    (fun s event ho hevent => ho.step hfits hids event hevent) _ _ hguarded ?_).nodup
  exact ⟨⟨[], messages, rfl, List.suffix_rfl, fun _ hin => absurd hin List.not_mem_nil⟩,
    List.nodup_nil⟩

end Streams

/-- When a connection closes, all requests were registered, and each one was answered. -/
theorem Framed.all_answered (h : Framed H messages s) (hclosed : s.connection.status = .closed)
    (hrequests : ∀ message ∈ messages, IsRequest message) (hids : (messages.map id).Nodup) :
    s.registered = messages.filterMap requestOf ∧ ∃ answers : List CClientMessage,
      s.sent = CClientMessage.codec.encodeAll answers ∧ (answers.map id).Perm (messages.map id) := by
  obtain ⟨done, later, hsplit, hincoming, hregistered⟩ := h.registered
  obtain ⟨answers, -, hsent, hnodup, hanswers⟩ := h.answered
  obtain ⟨hnil, hnone⟩ := h.closed hclosed
  have hlater : later = [] := by
    cases later with
    | nil => rfl
    | cons message later =>
      rw [hnil, encodeAll_cons] at hincoming
      exact absurd (List.append_eq_nil_iff.mp hincoming.symm).1 (CClientMessage.encode_ne_nil message)
  rw [hlater, List.append_nil] at hsplit
  subst hsplit
  refine ⟨hregistered, answers, hsent, (List.perm_ext_iff_of_nodup hnodup hids).mpr fun token => ?_⟩
  rw [hanswers, hregistered, map_fst_filterMap_requestOf hrequests]
  exact and_iff_left (hnone token)

end Runs

/-- For each stream of messages with distinct identifiers: if all are requests, then each one
that is received is registered once and answered once throughout a run if and only if each
step meets the condition; and nothing is registered again in a run that meets the other
condition, whatever the messages are. -/
theorem framed_iff_and_unrepeated (H : HashFunctions) {messages : List CClientMessage}
    {events : List ServerEvent} (hfits : ∀ message ∈ messages, CClientMessage.codec.Fits message)
    (hids : (messages.map id).Nodup) (hapart : ∀ event ∈ events, Apart messages event) :
    ((∀ message ∈ messages, IsRequest message) →
      ((∀ past, past <+: events → Framed H messages
          (GuardedRun.run step (start (CClientMessage.codec.encodeAll messages)) past)) ↔
        GuardedRun.Guarded step (Frames H)
          (start (CClientMessage.codec.encodeAll messages)) events)) ∧
    (GuardedRun.Guarded step (Unrepeated messages)
        (start (CClientMessage.codec.encodeAll messages)) events →
      ∀ past, past <+: events → ((GuardedRun.run step
        (start (CClientMessage.codec.encodeAll messages)) past).registered.map Prod.fst).Nodup) := by
  refine ⟨fun hrequests => framed_throughout_iff hfits hrequests hids hapart, ?_⟩
  rintro hguarded past ⟨rest, rfl⟩
  exact nodup_registered_run hfits hids ((GuardedRun.guarded_append step _).mp hguarded).1

namespace SplitStream

def request : CClientMessage := ⟨⟨CMainRequestType.trackerInfoReq.toInt, 1⟩, []⟩

def unknown : CClientMessage := ⟨⟨CMainRequestType.requestSatatusReq.toInt, 2⟩, []⟩

def hashes : HashFunctions := ⟨fun _ => 0, fun _ => 0⟩

def surroundings : RequestSurroundings := ⟨fun _ => [], [], []⟩

def second : CClientMessage := ⟨⟨CMainRequestType.trackerInfoReq.toInt, 2⟩, []⟩

/-- Two requests are received in two chunks, handled and answered. -/
def events : List ServerEvent :=
  [.run (some 37) true, .run (some 1000) true, .processRequests surroundings, .run none true]

theorem fits_requests : ∀ message ∈ [request, second], CClientMessage.codec.Fits message := by
  simp only [List.forall_mem_cons]
  exact ⟨CClientMessage.fits_iff.mpr (Nat.zero_le _), CClientMessage.fits_iff.mpr (Nat.zero_le _),
    nofun⟩

theorem frames_events : GuardedRun.Guarded step (Frames hashes)
    (start (CClientMessage.codec.encodeAll [request, second])) events := by
  have hfits := fits_requests
  simp only [List.forall_mem_cons] at hfits
  refine ⟨fun _ => ⟨[request], List.forall_mem_singleton.mpr hfits.1, by decide +kernel,
      by decide +kernel, fun _ => rfl, fun hanswered => nomatch hanswered 1 (by decide +kernel)⟩,
    fun _ => ⟨[second], List.forall_mem_singleton.mpr hfits.2.1, by decide +kernel,
      by decide +kernel, fun _ => rfl, fun _ => by decide +kernel⟩, ?_,
    fun _ => ⟨[], nofun, rfl, by decide +kernel, fun _ => rfl, fun _ => by decide +kernel⟩, trivial⟩
  intro token htoken nodeRequest hlookup
  have hpair : token = 1 ∨ token = 2 := List.mem_pair.mp htoken
  rcases hpair with rfl | rfl <;>
  · obtain rfl : NodeRequests.trackerStatsReq = nodeRequest := Option.some.inj hlookup
    exact .inr (.inr (.inl trivial))

theorem unrepeated_events : GuardedRun.Guarded step (Unrepeated [request, second])
    (start (CClientMessage.codec.encodeAll [request, second])) events :=
  ⟨fun _ => ⟨[request, second], List.suffix_rfl, rfl⟩,
    fun _ => ⟨[second], List.suffix_cons request [second], by decide +kernel⟩, trivial,
    fun _ _ hin => absurd hin List.not_mem_nil, trivial⟩

theorem framed_and_unrepeated_whole :
    (∀ past, past <+: events → Framed hashes [request, second]
      (GuardedRun.run step (start (CClientMessage.codec.encodeAll [request, second])) past)) ∧
    ∀ past, past <+: events → ((GuardedRun.run step (start (CClientMessage.codec.encodeAll
      [request, second])) past).registered.map Prod.fst).Nodup := by
  have hrequests : ∀ message ∈ [request, second], IsRequest message := by
    simp only [List.forall_mem_cons]
    exact ⟨⟨_, rfl⟩, ⟨_, rfl⟩, nofun⟩
  have h := @framed_iff_and_unrepeated hashes [request, second] events fits_requests
    (by decide) (by simp only [events, List.forall_mem_cons]
                    exact ⟨trivial, trivial, trivial, trivial, nofun⟩)
  exact ⟨(h.1 hrequests).mpr frames_events, h.2 unrepeated_events⟩

theorem request_cut_or_repeated :
    ¬Framed hashes [request] (GuardedRun.run step
      (start (CClientMessage.codec.encodeAll [request])) [.run (some 10) true]) ∧
    ((GuardedRun.run step (start (CClientMessage.codec.encodeAll [request, unknown]))
      [.run (some 1000) true, .processRequests surroundings, .run none true]).registered.map
        Prod.fst) = [1, 1] := by
  constructor
  · intro h
    exact h.running rfl
  · rfl

end SplitStream

end ClientServer

end Dims
