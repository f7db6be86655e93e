import IPchain.Factory

/-! Which blocks the requests of a download ask for. -/

namespace IPchain

namespace Factory

def numbers : Packet → List Nat
  | .getBlocks num chunk => List.range' num chunk
  | .getBlockNum num => [num]
  | .getTxPool | .setBlocks _ _ | .setBlock _ => []

/-- `random.choice` raises an exception when there are no peers. -/
def sendMsgRandomPeer (peers : List Bytes) (draw : Nat) (msg : Packet) : Option (Bytes × Packet) :=
  (peers[draw % peers.length]?).map fun peer => (peer, msg)

def sendEach (peers : List Bytes) (draw : Nat → Nat) : List Packet → List (Bytes × Packet)
  | [] => []
  | msg :: msgs =>
      match sendMsgRandomPeer peers (draw 0) msg with
      | some sent => sent :: sendEach peers (fun i => draw (i + 1)) msgs
      | none => []

/-- `get_blocks` of the factory, with the peers that `random` draws. -/
def sendRequests (peers : List Bytes) (draw : Nat → Nat) (f : Factory) : List (Bytes × Packet) :=
  sendEach peers draw f.requests

def requested (peers : List Bytes) (draw : Nat → Nat) (f : Factory) : List Nat :=
  (f.sendRequests peers draw).flatMap fun sent => numbers sent.2

theorem sendEach_nil (draw : Nat → Nat) (msgs : List Packet) : sendEach [] draw msgs = [] := by
  cases msgs with
  | nil => rfl
  | cons msg msgs => rfl

theorem sendEach_messages {peers : List Bytes} (some : peers ≠ []) (draw : Nat → Nat)
    (msgs : List Packet) : (sendEach peers draw msgs).map Prod.snd = msgs := by
  induction msgs generalizing draw with
  | nil => rfl
  | cons msg msgs ih =>
      have drawn : draw 0 % peers.length < peers.length :=
        Nat.mod_lt _ (List.length_pos_iff.mpr some)
      simp only [sendEach, sendMsgRandomPeer, List.getElem?_eq_getElem drawn, Option.map_some,
        List.map_cons, ih]

theorem flatMap_chunks (first size count : Nat) :
    ((List.range count).flatMap fun i => List.range' (first + size * i) size) =
      List.range' first (size * count) := by
  induction count with
  | zero => rfl
  | succ count ih =>
      rw [List.range_succ, List.flatMap_append, ih, List.flatMap_singleton, Nat.mul_succ]
      exact List.range'_append_1

theorem requests_numbers (f : Factory) :
    f.requests.flatMap numbers =
      List.range' (f.lastServedBlock + 1)
        (blockChunk * ((f.numBlock - f.lastServedBlock) / blockChunk) +
          if (f.numBlock - f.lastServedBlock) % blockChunk = 0 then 0
          else f.numBlock % blockChunk) := by
  have full : ∀ i ∈ List.range ((f.numBlock - f.lastServedBlock) / blockChunk),
      numbers (if f.numBlock < f.lastServedBlock + 1 + blockChunk * i + blockChunk - 1 then
        .getBlocks (f.lastServedBlock + 1 + blockChunk * i) (f.numBlock % blockChunk)
        else .getBlocks (f.lastServedBlock + 1 + blockChunk * i) blockChunk) =
      List.range' (f.lastServedBlock + 1 + blockChunk * i) blockChunk := by
    intro i inside
    have inside := List.mem_range.mp inside
    rw [if_neg (by simp only [blockChunk] at *; omega)]
    rfl
  simp only [requests, List.flatMap_map]
  by_cases whole : (f.numBlock - f.lastServedBlock) % blockChunk = 0
  · have count : (f.numBlock - f.lastServedBlock + blockChunk - 1) / blockChunk =
        (f.numBlock - f.lastServedBlock) / blockChunk := by
      simp only [blockChunk] at *
      omega
    rw [count, if_pos whole, List.flatMap_congr full, flatMap_chunks]
    rfl
  · have count : (f.numBlock - f.lastServedBlock + blockChunk - 1) / blockChunk =
        (f.numBlock - f.lastServedBlock) / blockChunk + 1 := by
      simp only [blockChunk] at *
      omega
    rw [count, if_neg whole, List.range_succ, List.flatMap_append, List.flatMap_congr full,
      flatMap_chunks, List.flatMap_singleton,
      if_pos (by simp only [blockChunk] at *; omega)]
    exact List.range'_append_1

theorem covers_iff {last first count : Nat} (behind : first < last) :
    (∀ i, (if first + 1 ≤ i ∧ i < first + 1 + count then 1 else 0) =
      if first < i ∧ i ≤ last then 1 else 0) ↔ count = last - first := by
  constructor
  · intro same
    have beyond := same (last + 1)
    have missed := same (first + 1 + count)
    rw [if_neg (show ¬ (first < last + 1 ∧ last + 1 ≤ last) by omega)] at beyond
    rw [if_neg (show ¬ (first + 1 ≤ first + 1 + count ∧ _) by omega)] at missed
    split_ifs at beyond missed
    omega
  · intro exactly i
    congr 1
    apply propext
    omega

/-- The requests ask for every missing block once and for no other one exactly when there is a
peer and the last chunk is full or the counter stood at a multiple of the size of a chunk. -/
theorem requests_cover_iff (peers : List Bytes) (draw : Nat → Nat) (f : Factory)
    (behind : f.lastServedBlock < f.numBlock) :
    (∀ i, (f.requested peers draw).count i =
      if f.lastServedBlock < i ∧ i ≤ f.numBlock then 1 else 0) ↔
      peers ≠ [] ∧ (blockChunk ∣ f.numBlock - f.lastServedBlock ∨
        blockChunk ∣ f.lastServedBlock) := by
  by_cases connected : peers = []
  · subst connected
    constructor
    · intro covers
      have last := covers f.numBlock
      simp [requested, sendRequests, sendEach_nil, behind] at last
    · intro condition
      exact absurd rfl condition.1
  have sent : f.requested peers draw = f.requests.flatMap numbers := by
    rw [requested, sendRequests, ← List.flatMap_map, sendEach_messages connected]
  rw [sent, requests_numbers]
  simp only [(List.nodup_range' 1).count, List.mem_range'_1, ne_eq,
    connected, not_false_eq_true, true_and]
  rw [covers_iff behind]
  by_cases whole : (f.numBlock - f.lastServedBlock) % blockChunk = 0
  · rw [if_pos whole]
    simp only [blockChunk] at *
    omega
  · rw [if_neg whole]
    simp only [blockChunk] at *
    omega

end Factory

namespace Sample.Wired

open Factory

/-- A node that starts at 20 and has the blocks up to 25 to get. -/
theorem requests_from_twenty :
    let f : Factory := { start 20 with numBlock := 25 }
    f.requests = [.getBlocks 21 5] ∧
      ∀ i, (f.requested [[1]] id).count i = if 20 < i ∧ i ≤ 25 then 1 else 0 := by
  intro f
  exact ⟨by decide, (requests_cover_iff [[1]] id f (by decide)).mpr (by decide)⟩

/-- At 8, the last chunk is as large as if the node had started at a multiple of ten. -/
theorem requests_miss_blocks :
    let f : Factory := { start 8 with numBlock := 15 }
    f.lastServedBlock < f.numBlock ∧ f.requests = [.getBlocks 9 5] ∧
      ¬ ∀ i, (f.requested [[1]] id).count i = if 8 < i ∧ i ≤ 15 then 1 else 0 := by
  intro f
  refine ⟨by decide, by decide, ?_⟩
  intro covers
  exact absurd (covers 15) (by decide)

end Sample.Wired

end IPchain
