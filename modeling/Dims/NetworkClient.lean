import Dims.ClientProtocol
import Dims.GuardedRun

/-!
# What a client sends

client/networkClient.cpp. The request loop writes messages to a stream and flushes it, and
the thread of the connection writes the push buffer to the socket. The stream has its
position only: it writes to the memory of the push buffer.
-/

namespace Dims
open ByteCodec

structure CNetworkClient where
  pushBuffer : CCommunicationBuffer
  /-- The position of `m_pushStream`. -/
  pushPosition : ℕ

namespace CNetworkClient

/-- The buffer holds what is found in memory. -/
def init (memory : ℕ → UInt8) : CNetworkClient := ⟨⟨memory, 0⟩, 0⟩

/-- No value where the stream throws. -/
def add (c : CNetworkClient) (message : CClientMessage) : Option CNetworkClient :=
  let bytes := CClientMessage.codec.encode message
  if c.pushPosition + bytes.length ≤ maxBufferSize then
    some ⟨c.pushBuffer.fill c.pushPosition bytes, c.pushPosition + bytes.length⟩
  else none

def flush (c : CNetworkClient) : CNetworkClient :=
  let c := { c with pushBuffer := { c.pushBuffer with usedSize := c.pushPosition } }
  if c.pushBuffer.usedSize = 0 then c else { c with pushPosition := 0 }

def write (c : CNetworkClient) : Bytes × CNetworkClient :=
  if 0 < c.pushBuffer.usedSize then
    (c.pushBuffer.front c.pushBuffer.usedSize,
      { c with pushBuffer := { c.pushBuffer with usedSize := 0 } })
  else ([], c)

/-- The bytes that the next `write` sends. -/
def waiting (c : CNetworkClient) : Bytes := c.pushBuffer.front c.pushBuffer.usedSize

/-- The bytes that the next `flush` hands over. -/
def staged (c : CNetworkClient) : Bytes := c.pushBuffer.front c.pushPosition

end CNetworkClient

/-- The client, the messages that have been added and the bytes that have been sent. -/
structure ClientPushes where
  client : CNetworkClient
  added : List CClientMessage
  sent : Bytes

inductive PushEvent
  | add (message : CClientMessage)
  | flush
  | write

namespace ClientPushes

def init (memory : ℕ → UInt8) : ClientPushes := ⟨.init memory, [], []⟩

def react (p : ClientPushes) : PushEvent → Option ClientPushes
  | .add message =>
    (p.client.add message).map fun client => ⟨client, p.added ++ [message], p.sent⟩
  | .flush => some { p with client := p.client.flush }
  | .write => some { p with client := p.client.write.2, sent := p.sent ++ p.client.write.1 }

def step (s : Option ClientPushes) (event : PushEvent) : Option ClientPushes :=
  s.bind fun p => p.react event

def encoded (messages : List CClientMessage) : Bytes :=
  messages.flatMap CClientMessage.codec.encode

/-- What has been sent and what is still to be sent are the added messages, one after the
other. -/
def SentInOrder (p : ClientPushes) : Prop :=
  p.sent ++ p.client.waiting ++ p.client.staged = encoded p.added

/-- A message is not written over other bytes that wait, and nothing waits when the stream is
flushed. -/
def Undisturbed (s : Option ClientPushes) : PushEvent → Prop
  | .add message => ∀ p, s = some p →
    p.client.pushPosition + (CClientMessage.codec.encode message).length ≤ maxBufferSize →
      ∀ i < (CClientMessage.codec.encode message).length,
        p.client.pushPosition + i < p.client.pushBuffer.usedSize →
          (CClientMessage.codec.encode message).getD i 0 =
            p.client.pushBuffer.buffer (p.client.pushPosition + i)
  | .flush => ∀ p, s = some p → p.client.pushBuffer.usedSize = 0
  | .write => True

section Steps

variable {p p' : ClientPushes} {c c' : CNetworkClient} {message : CClientMessage}

theorem waiting_eq_nil (h : c.pushBuffer.usedSize = 0) : c.waiting = [] := by
  rw [CNetworkClient.waiting, h]
  rfl

theorem write_spec (c : CNetworkClient) :
    c.write.1 = c.waiting ∧ c.write.2.waiting = [] ∧ c.write.2.staged = c.staged := by
  unfold CNetworkClient.write
  split
  case isTrue => exact ⟨rfl, rfl, rfl⟩
  case isFalse hempty =>
    have hnone := waiting_eq_nil (Nat.eq_zero_of_not_pos hempty)
    exact ⟨hnone.symm, hnone, rfl⟩

end Steps

section Runs

variable {memory : ℕ → UInt8} {s : Option ClientPushes}

def InOrder (s : Option ClientPushes) : Prop := ∀ p, s = some p → p.SentInOrder

end Runs

end ClientPushes

namespace RepeatedFlush
open ClientPushes

def request : CClientMessage := ⟨⟨CMainRequestType.networkInfoReq.toInt, 1⟩, []⟩

/-- The request loop flushes again before the connection has written. -/
def events : List PushEvent := [.add request, .flush, .flush, .write]

end RepeatedFlush

end Dims
