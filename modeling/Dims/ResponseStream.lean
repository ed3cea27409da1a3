import Dims.ResponseParsing

/-!
# Answers in a stream

The answers to what a client asks come in one stream, which the socket hands over in parts.
Whether each answer is given back once depends on where the parts end and on which requests
wait.
-/

namespace Dims
open ByteCodec Serialize Codec

universe u

/-- The client with what its socket holds and what is still to arrive there, the requests that
have been added with their identifiers, and what has been given back. -/
structure ClientPulls (Request : Type u) where
  client : CNetworkClientPull Request
  socket : Bytes
  incoming : Bytes
  asked : List (Uint256 × Request)
  returned : List (Request × CClientMessageResponse)

inductive PullEvent (Request : Type u)
  /-- A request whose message fits into the push stream. -/
  | add (id : Uint256) (request : Request)
  /-- The thread reads after so many bytes have arrived, or after none in time. -/
  | read (arriving : ℕ)
  | getResponseAndClear

namespace ClientPulls
open CBufferAsStream CNetworkClientPull

variable {Request : Type u}

def start (ip : String) (nodePtr : ℕ) (memory : ℕ → UInt8) (answers : List CClientMessage) :
    ClientPulls Request :=
  ⟨⟨ip, nodePtr, ⟨memory, 0⟩, .empty⟩, [], CClientMessage.codec.encodeAll answers, [], []⟩

/-- The bytes that arrive for a read. -/
def chunk (s : ClientPulls Request) (arriving : ℕ) : Bytes := s.incoming.take arriving

def step (s : ClientPulls Request) : PullEvent Request → Except ParsingFault (ClientPulls Request)
  | .add id request => .ok { s with
      client := { s.client with matching := s.client.matching.insertNew id request }
      asked := s.asked ++ [(id, request)] }
  | .read arriving =>
    -- `waitForInput` has bytes only if new ones come
    let socket := s.socket ++ s.chunk arriving
    let bytesAvail := if s.chunk arriving = [] then 0 else socket.length
    .ok { s with
      client := (s.client.read bytesAvail socket).1
      socket := (s.client.read bytesAvail socket).2
      incoming := s.incoming.drop arriving }
  | .getResponseAndClear =>
    match s.client.getResponseAndClear s.client.pullBuffer.usedSize with
    | none => .error .endless
    | some outcome => outcome.map fun p => { s with client := p.2, returned := s.returned ++ p.1 }

def messages (s : ClientPulls Request) : List CClientMessage :=
  s.returned.map fun answer => answer.2.clientMessage

/-- The answers have been given back, each once and with the request that was added under its
identifier, up to those which wait in the pull buffer or are to arrive. -/
structure Delivered (answers : List CClientMessage) (s : ClientPulls Request) : Prop where
  taken : s.socket = []
  inOrder : ∃ later, answers = s.messages ++ later ∧
    CClientMessage.codec.encodeAll later = s.client.waiting ++ s.incoming
  matched : ∀ answer ∈ s.returned, (answer.2.clientMessage.header.id, answer.1) ∈ s.asked

/-- What the pull buffer holds are whole answers to different requests that wait. -/
def WholeAnswers (c : CNetworkClientPull Request) : Prop :=
  ∃ now, (∀ message ∈ now, CClientMessage.codec.Fits message) ∧
    c.waiting = CClientMessage.codec.encodeAll now ∧ Pending c.matching (ids now)

/-- The condition of a step: a read gets more than waits already, and both fit into the
buffer; and what is parsed are whole answers. -/
def Handles (s : ClientPulls Request) : PullEvent Request → Prop
  | .add _ _ => True
  | .read arriving => s.chunk arriving ≠ [] →
    s.client.pullBuffer.usedSize < (s.chunk arriving).length ∧
      (s.chunk arriving).length < maxBufferSize ∧
        s.client.pullBuffer.usedSize + (s.chunk arriving).length ≤ maxBufferSize
  | .getResponseAndClear => WholeAnswers s.client

/-- The requests that wait have been added. -/
def Asked (s : ClientPulls Request) : Prop :=
  ∀ id request, s.client.matching.lookup id = some request → (id, request) ∈ s.asked

section Steps

variable {answers : List CClientMessage} {s t : ClientPulls Request}

/-- Once nothing waits and nothing is to arrive, all answers have been given back. -/
theorem Delivered.messages_eq (h : s.Delivered answers) (hwaiting : s.client.waiting = [])
    (hincoming : s.incoming = []) : s.messages = answers := by
  obtain ⟨later, hanswers, hlater⟩ := h.inOrder
  rw [hwaiting, hincoming, List.append_nil] at hlater
  cases later with
  | nil => rw [hanswers, List.append_nil]
  | cons message later =>
    exact absurd (List.append_eq_nil_iff.mp hlater).1 (CClientMessage.encode_ne_nil message)

theorem step_call_iff : s.step .getResponseAndClear = .ok t ↔
    Readable s.client.matching s.client.waiting ∧
      t = { s with
        client := s.client.afterCall (scan s.client.waiting).1
        returned := s.returned ++
          s.client.answersTo s.client.matching (scan s.client.waiting).1 } := by
  constructor
  · intro h
    simp only [step] at h
    split at h
    · cases h
    case h_2 outcome houtcome =>
      cases outcome with
      | error fault => cases h
      | ok p =>
        cases h
        obtain ⟨hreadable, hanswers, hclient⟩ := getResponseAndClear_eq_some_iff.mp houtcome
        rw [← hanswers, ← hclient]
        exact ⟨hreadable, rfl⟩
  · rintro ⟨hreadable, rfl⟩
    have hcall := getResponseAndClear_eq_some_iff.mpr ⟨hreadable, rfl, rfl⟩
    simp only [step, hcall]
    rfl

theorem asked_step {event : PullEvent Request} (h : s.Asked) (hstep : s.step event = .ok t) :
    t.Asked := by
  intro id request hlookup
  cases event with
  | add newId newRequest =>
    cases hstep
    rcases OrderedMap.eq_or_lookup_of_insertNew hlookup with ⟨rfl, rfl⟩ | hold
    · exact List.mem_append_right _ (List.mem_singleton_self _)
    · exact List.mem_append_left _ (h id request hold)
  | read arriving =>
    cases hstep
    refine h id request ?_
    rw [← hlookup]
    change _ = (s.client.read _ _).1.matching.lookup id
    rw [matching_read]
  | getResponseAndClear =>
    obtain ⟨-, rfl⟩ := step_call_iff.mp hstep
    change ((ids _).foldl OrderedMap.erase s.client.matching).lookup id = some request at hlookup
    rw [OrderedMap.lookup_foldl_erase] at hlookup
    split at hlookup
    · cases hlookup
    · exact h id request hlookup

theorem read_taken_iff (h : s.Delivered answers) (arriving : ℕ) :
    (∃ t, s.step (.read arriving) = .ok t ∧ t.Delivered answers) ↔ s.Handles (.read arriving) := by
  have hincoming : s.chunk arriving ++ s.incoming.drop arriving = s.incoming :=
    List.take_append_drop arriving s.incoming
  simp only [step, Except.ok.injEq, exists_eq_left', h.taken, List.nil_append, Handles]
  by_cases hnone : s.chunk arriving = []
  · rw [hnone, List.nil_append] at hincoming
    simp only [hnone, if_true, ne_eq, not_true_eq_false, false_implies, iff_true, read_zero, hincoming]
    exact ⟨rfl, h.inOrder, h.matched⟩
  · rw [if_neg hnone, forall_prop_of_true hnone]
    by_cases hreads : s.client.pullBuffer.usedSize < (s.chunk arriving).length ∧
        (s.chunk arriving).length < maxBufferSize
    · rw [read_of_lt hreads.1 hreads.2, and_iff_right hreads.1, and_iff_right hreads.2]
      constructor
      · rintro ⟨htaken, -, -⟩
        have hle := List.drop_eq_nil_iff.mp htaken
        omega
      · intro hroom
        refine ⟨List.drop_eq_nil_iff.mpr (by omega), ?_, h.matched⟩
        obtain ⟨later, hanswers, hlater⟩ := h.inOrder
        refine ⟨later, hanswers, ?_⟩
        rw [hlater, List.take_of_length_le (by omega)]
        change _ = (s.client.appended _).waiting ++ _
        rw [waiting_appended, List.append_assoc, hincoming]
    · rw [read_of_le (by omega)]
      refine iff_of_false (fun hdelivered => hnone hdelivered.taken) fun hhandles => ?_
      exact hreads ⟨hhandles.1, hhandles.2.1⟩

/-- A call gives back all that waits exactly if these are whole answers. -/
theorem call_delivered_iff (hfits : ∀ message ∈ answers, CClientMessage.codec.Fits message)
    (hasked : s.Asked) (h : s.Delivered answers) :
    (∃ t, s.step .getResponseAndClear = .ok t ∧ t.Delivered answers) ↔
      s.Handles .getResponseAndClear := by
  obtain ⟨later, hanswers, hlater⟩ := h.inOrder
  constructor
  · rintro ⟨t, ht, hdelivered⟩
    obtain ⟨⟨hpending, -⟩, rfl⟩ := step_call_iff.mp ht
    obtain ⟨later', hanswers', hlater'⟩ := hdelivered.inOrder
    have hnow : later = (scan s.client.waiting).1 ++ later' := by
      rw [messages, List.map_append, map_answersTo hpending, List.append_assoc, hanswers] at hanswers'
      exact List.append_cancel_left hanswers'
    refine ⟨(scan s.client.waiting).1, fun message hmessage => ?_, ?_, hpending⟩
    · refine hfits message ?_
      rw [hanswers, hnow]
      exact List.mem_append_right _ (List.mem_append_left _ hmessage)
    · rw [hnow, encodeAll_append, hlater'] at hlater
      exact (List.append_cancel_right hlater).symm
  · rintro ⟨now, hnowfits, hwaiting, hpending⟩
    have hscan : scan s.client.waiting = (now, []) := by rw [hwaiting, scan_encodeAll hnowfits]
    have hreadable : Readable s.client.matching s.client.waiting := by
      rw [Readable, hscan]
      exact ⟨hpending, rfl⟩
    refine ⟨_, step_call_iff.mpr ⟨hreadable, rfl⟩, h.taken, ?_, ?_⟩
    · rw [hwaiting] at hlater
      have hlaterfits : ∀ message ∈ later, CClientMessage.codec.Fits message :=
        fun message hmessage => hfits message (hanswers ▸ List.mem_append_right _ hmessage)
      obtain ⟨later', rfl, hlater'⟩ := exists_append_of_encodeAll_eq
        (fun message _ => CClientMessage.encode_ne_nil message) hlaterfits hnowfits hlater
      refine ⟨later', ?_, hlater'⟩
      rw [messages, List.map_append, hscan, map_answersTo hpending, List.append_assoc]
      exact hanswers
    · intro answer hanswer
      rcases List.mem_append.mp hanswer with hold | hnew
      · exact h.matched answer hold
      · obtain ⟨message, -, hmatch⟩ := List.mem_filterMap.mp hnew
        obtain ⟨request, hrequest, rfl⟩ := Option.map_eq_some_iff.mp hmatch
        exact hasked _ _ hrequest

theorem delivered_step_iff (hfits : ∀ message ∈ answers, CClientMessage.codec.Fits message)
    (event : PullEvent Request) (hasked : s.Asked) (h : s.Delivered answers) :
    (∃ t, s.step event = .ok t ∧ t.Delivered answers) ↔ s.Handles event := by
  cases event with
  | add id request =>
    refine iff_of_true ⟨_, rfl, h.taken, h.inOrder, fun answer hanswer => ?_⟩ trivial
    exact List.mem_append_left _ (h.matched answer hanswer)
  | read arriving => exact read_taken_iff h arriving
  | getResponseAndClear => exact call_delivered_iff hfits hasked h

end Steps

/-- A call of `getResponseAndClear` comes back exactly for a readable buffer. And of a stream of
answers all that has arrived is given back or waits, in every state of a run, if and only if
every step of the run meets the condition. -/
theorem responses_iff {ip : String} {nodePtr : ℕ} {memory : ℕ → UInt8}
    {answers : List CClientMessage} (events : List (PullEvent Request))
    (hfits : ∀ message ∈ answers, CClientMessage.codec.Fits message) :
    (∀ c : CNetworkClientPull Request, c.Returns ↔ Readable c.matching c.waiting) ∧
    ((∀ past, past <+: events → ∃ t, FallibleRun.run step (start ip nodePtr memory answers) past = .ok t ∧
        t.Delivered answers) ↔
      FallibleRun.Guarded step Handles (start ip nodePtr memory answers) events) := by
  refine ⟨fun c => returns_iff, ?_⟩
  have hasked : (start ip nodePtr memory answers : ClientPulls Request).Asked := by
    intro id request hlookup
    cases hlookup
  have hdelivered : (start ip nodePtr memory answers : ClientPulls Request).Delivered answers :=
    ⟨rfl, ⟨answers, rfl, rfl⟩, nofun⟩
  exact FallibleRun.always_iff (fun s event t hasked hstep => asked_step hasked hstep)
    (fun s event hasked h => delivered_step_iff hfits event hasked h) hasked hdelivered

end ClientPulls

namespace TwoAnswers
open ClientPulls CNetworkClientPull

def answer (id : Uint256) : CClientMessage := ⟨⟨CMainRequestType.networkInfoReq.toInt, id⟩, []⟩

def begin (answers : List CClientMessage) : ClientPulls ℕ := start "" 0 (fun _ => 0) answers

/-- The part that the socket has for the read. -/
def events (arriving : ℕ) : List (PullEvent ℕ) :=
  [.add 1 10, .add 2 20, .read arriving, .getResponseAndClear]

theorem fits_answer (id : Uint256) : CClientMessage.codec.Fits (answer id) :=
  CClientMessage.fits_iff.mpr (Nat.zero_le _)

theorem fits_answers : ∀ message ∈ [answer 1, answer 2], CClientMessage.codec.Fits message :=
  List.forall_mem_cons.mpr ⟨fits_answer 1, List.forall_mem_singleton.mpr (fits_answer 2)⟩

theorem guarded_whole :
    FallibleRun.Guarded step Handles (begin [answer 1, answer 2]) (events 74) := by
  refine ⟨trivial, fun s hs => ?_⟩
  cases hs
  refine ⟨trivial, fun s hs => ?_⟩
  cases hs
  refine ⟨fun _ => ⟨by decide, by decide, by decide⟩, fun s hs => ?_⟩
  cases hs
  refine ⟨⟨[answer 1, answer 2], fits_answers, rfl, by simp [ids, answer], ?_⟩, fun s hs => trivial⟩
  exact List.forall_mem_cons.mpr ⟨rfl, List.forall_mem_singleton.mpr rfl⟩

theorem delivered_whole :
    (∀ c : CNetworkClientPull ℕ, c.Returns ↔ Readable c.matching c.waiting) ∧
    ∀ past, past <+: events 74 → ∃ t, FallibleRun.run step (begin [answer 1, answer 2]) past = .ok t ∧
      t.Delivered [answer 1, answer 2] := by
  have h := @responses_iff ℕ "" 0 (fun _ => 0) _ (events 74) fits_answers
  exact ⟨h.1, h.2.mpr guarded_whole⟩

/-- The client holds the first answer and one byte of the second one. -/
def cut : CNetworkClientPull ℕ :=
  appended ⟨"", 0, ⟨fun _ => 0, 0⟩, .insertNew (.insertNew .empty 1 10) 2 20⟩
    ((CClientMessage.codec.encodeAll [answer 1, answer 2]).take 38)

theorem endless_cut_and_assertion_repeated :
    (¬∃ bound outcome, cut.getResponseAndClear bound = some outcome) ∧
    FallibleRun.run step (begin [answer 1, answer 2]) (events 38) = .error .endless ∧
    FallibleRun.run step (begin [answer 1, answer 1]) (events 74) = .error .assertion := by
  refine ⟨?_, rfl, rfl⟩
  rintro ⟨bound, outcome, houtcome⟩
  have hnone := getResponseAndClear_usedSize houtcome
  revert hnone
  exact nofun

end TwoAnswers

end Dims
