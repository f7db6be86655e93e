import IPchain.Lib.Framing
import IPchain.Parser

/-! The two protocols of the network process: how the bytes of a connection become lines. -/

namespace IPchain

open Lib

def crlf : Bytes := [13, 10]

/-- `[line.strip() for line in text.splitlines()]` -/
def strippedLines (text : Bytes) : List Bytes := (splitlines 13 10 text).map stripSpaces

def endsLine (buffer : Bytes) : Bool := buffer.drop (buffer.length - 2) = crlf

theorem endsLine_iff (buffer : Bytes) : endsLine buffer ↔ crlf <:+ buffer := by
  rw [endsLine, decide_eq_true_iff, List.suffix_iff_eq_drop]
  exact eq_comm

theorem endsLine_append {first rest : Bytes} (ended : endsLine first) :
    endsLine (first ++ rest) ↔ rest = [] ∨ endsLine rest := by
  simp only [endsLine_iff] at *
  obtain ⟨start, rfl⟩ := ended
  constructor
  · intro whole
    rcases List.suffix_or_suffix_of_suffix whole (List.suffix_append _ rest) with inside | short
    · exact Or.inr inside
    · obtain ⟨before, same⟩ := whole
      match rest with
      | [] => exact Or.inl rfl
      | [b] =>
          have last := congrArg (fun text : Bytes => text.reverse.take 2) same
          simp [crlf] at last
      | b :: c :: rest =>
          have none : rest = [] := by simpa [crlf] using short.length_le
          have same := short.eq_of_length (by rw [none]; rfl)
          exact Or.inr (same.symm ▸ List.suffix_refl _)
  · rintro (rfl | inside)
    · rw [List.append_nil]
      exact List.suffix_append start crlf
    · exact inside.trans (List.suffix_append _ rest)

def lineReader : Reader UInt8 Bytes where
  complete := endsLine
  lines := strippedLines
  complete_nil := rfl
  complete_append := endsLine_append
  lines_nil := rfl
  lines_append := by
    intro first ended rest
    rw [strippedLines, splitlines_append (by decide) ((endsLine_iff first).mp ended),
      List.map_append]
    rfl

section Protocols

variable {σ τ : Type}

inductive ProtocolState where
  | nodeid
  | none
  deriving DecidableEq

/-- `p2pProtocol`, with the names of the peers that its factory has. -/
structure P2pProtocol (σ : Type) where
  state : ProtocolState
  nodeid : Option Bytes
  peers : List Bytes
  closing : Bool
  factory : σ

structure LocalProtocol (τ : Type) where
  closing : Bool
  factory : τ

namespace P2pProtocol

def loseConnection (p : P2pProtocol σ) : P2pProtocol σ := { p with closing := true }

def lineReceived (handle : Bytes → σ → σ × Bool) (line : Bytes) (p : P2pProtocol σ) :
    P2pProtocol σ :=
  match p.state with
  | .nodeid =>
      if line ∈ p.peers then p.loseConnection
      else { p with nodeid := some line, peers := p.peers ++ [line], state := .none }
  | .none =>
      let (factory, raised) := handle line p.factory
      if raised then { p with factory := factory }.loseConnection else { p with factory := factory }

def dataReceived (handle : Bytes → σ → σ × Bool) (data : Bytes)
    (s : Reading UInt8 Bytes (P2pProtocol σ)) : Reading UInt8 Bytes (P2pProtocol σ) :=
  lineReader.receive (lineReceived handle) data s

def receiveAll (handle : Bytes → σ → σ × Bool) (pieces : List Bytes)
    (s : Reading UInt8 Bytes (P2pProtocol σ)) : Reading UInt8 Bytes (P2pProtocol σ) :=
  pieces.foldl (fun s data => dataReceived handle data s) s

end P2pProtocol

namespace LocalProtocol

def lineReceived (handle : Bytes → τ → τ × Bool) (line : Bytes) (p : LocalProtocol τ) :
    LocalProtocol τ :=
  let (factory, raised) := handle line p.factory
  { factory := factory, closing := p.closing || raised }

def dataReceived (handle : Bytes → τ → τ × Bool) (data : Bytes)
    (s : Reading UInt8 Bytes (LocalProtocol τ)) : Reading UInt8 Bytes (LocalProtocol τ) :=
  lineReader.receive (lineReceived handle) data s

def receiveAll (handle : Bytes → τ → τ × Bool) (pieces : List Bytes)
    (s : Reading UInt8 Bytes (LocalProtocol τ)) : Reading UInt8 Bytes (LocalProtocol τ) :=
  pieces.foldl (fun s data => dataReceived handle data s) s

end LocalProtocol

theorem endsLine_messages (messages : List Bytes) :
    messages.flatMap (fun message => message ++ crlf) = [] ∨
      endsLine (messages.flatMap fun message => message ++ crlf) := by
  rcases List.eq_nil_or_concat messages with rfl | ⟨before, last, rfl⟩
  · exact Or.inl rfl
  · right
    rw [endsLine_iff, List.concat_eq_append, List.flatMap_append, List.flatMap_singleton,
      ← List.append_assoc]
    exact List.suffix_append _ crlf

/-- The lines that were gone through, and then those of the buffer, are what was received. -/
def Accounted (received : Bytes) (s : Reading UInt8 Bytes σ) : Prop :=
  s.processed ++ strippedLines s.buffer = strippedLines received

theorem accounted (process : Bytes → σ → σ) (first : σ) (pieces : List Bytes) :
    Accounted pieces.flatten (lineReader.receiveAll process pieces (.start first)) := by
  obtain ⟨_, follows⟩ := (Reader.follows_start lineReader process first).receiveAll pieces
  exact follows.lines

/-- However a stream of messages is cut, both protocols go through the same lines and end in the
same state, and at no moment is a line lost or added. -/
theorem framing_independent (handle : Bytes → σ → σ × Bool) (handleLocal : Bytes → τ → τ × Bool)
    (peer : P2pProtocol σ) (own : LocalProtocol τ) (messages pieces : List Bytes)
    (stream : pieces.flatten = messages.flatMap fun message => message ++ crlf) :
    P2pProtocol.receiveAll handle pieces (.start peer) =
        P2pProtocol.dataReceived handle pieces.flatten (.start peer) ∧
      LocalProtocol.receiveAll handleLocal pieces (.start own) =
        LocalProtocol.dataReceived handleLocal pieces.flatten (.start own) ∧
      ∀ now rest, now ++ rest = pieces →
        Accounted now.flatten (P2pProtocol.receiveAll handle now (.start peer)) ∧
          Accounted now.flatten (LocalProtocol.receiveAll handleLocal now (.start own)) := by
  have complete : pieces.flatten = [] ∨ lineReader.complete pieces.flatten := by
    rw [stream]
    exact endsLine_messages messages
  refine ⟨Reader.receiveAll_flatten pieces complete, Reader.receiveAll_flatten pieces complete, ?_⟩
  intro now rest split
  exact ⟨accounted _ peer now, accounted _ own now⟩

/-- Between two characters of an end, and inside a message that is two lines. -/
theorem framing_cut_twice :
    let handle (line : Bytes) (seen : List Bytes) : List Bytes × Bool := (seen ++ [line], false)
    let peer : P2pProtocol (List Bytes) := ⟨.nodeid, none, [], false, []⟩
    let own : LocalProtocol (List Bytes) := ⟨false, []⟩
    let pieces : List Bytes := [[97, 13], [10, 98], [10, 99, 13, 10]]
    (LocalProtocol.receiveAll handle pieces (.start own)).processed = [[97], [98], [99]] ∧
      P2pProtocol.receiveAll handle pieces (.start peer) =
        P2pProtocol.dataReceived handle pieces.flatten (.start peer) := by
  intro handle peer own pieces
  have framing := framing_independent handle handle peer own [[97], [98, 10, 99]] pieces (by decide)
  exact ⟨by decide, framing.1⟩

end Protocols

end IPchain
