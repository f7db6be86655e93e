import Mathlib.Data.List.AList
import IPchain.Utils
import IPchain.Lib.Program

/-! The network process between its peers and the process of the chain: who its peers are, and
how transactions and shares are passed on. -/

namespace IPchain

inductive Cargo where
  | tx
  | share
  | dkgShare
  deriving DecidableEq

/-- The messages of a peer that are not about blocks. `none` stands for a field that cannot be
gone through. -/
inductive PeerMessage where
  | ping
  | getPeers
  | setPeers (rows : Option (List (Bytes × Bytes)))
  | set (cargo : Cargo) (raw : Bytes)
  | getTxPool
  | setTxPool (raws : Option (List Bytes))
  | other
  deriving DecidableEq

/-- `read_envelope`, which raises where it returns nothing, and whether `rlp.decode` of the base64
text of a transaction or a share returns. -/
class Envelope where
  read : Bytes → Option PeerMessage
  decodes : Cargo → Bytes → Bool

/-- A connection of the class `p2pProtocol`. Without a name its state is NODEID. -/
structure Link where
  nodeid : Option Bytes
  host : Bytes
  closing : Bool
  deriving DecidableEq

structure Hub where
  nodeid : Bytes
  next : Nat
  links : AList fun _ : Nat => Link
  peers : AList fun _ : Bytes => Nat
  peersIp : AList fun _ : Bytes => Bytes
  bootstrap : Bool
  txPool : Bool
  txPoolQuery : List Nat
  pools : Cargo → List Bytes

inductive Outgoing where
  | nodeid (name : Bytes)
  | pong
  | getPeers
  | setPeers (rows : List (Bytes × Bytes))
  | getNumBlocks
  | line (text : Bytes)
  | getTxPool
  | setTxPool (raws : List Bytes)
  deriving DecidableEq

inductive LocalAnswer where
  | none
  | item (cargo : Cargo) (raw : Bytes)
  | bool (b : Bool)
  deriving DecidableEq

inductive Note where
  | send (link : Nat) (message : Outgoing)
  | dial (host : Bytes)
  | answer (answer : LocalAnswer)
  deriving DecidableEq

namespace Hub

def start (nodeid : Bytes) : Hub where
  nodeid := nodeid
  next := 0
  links := ∅
  peers := ∅
  peersIp := ∅
  bootstrap := false
  txPool := false
  txPoolQuery := []
  pools := fun _ => []

/-- What happens to the process. `i` picks what `pop` takes from a set and what `random.choice`
takes from the peers. -/
inductive Event where
  | connected (host : Bytes)
  | bootstrapProtocol (link : Nat)
  | line (link : Nat) (text : Bytes)
  | lost (link : Nat)
  | checkTx (i : Nat)
  | localGet (cargo : Cargo) (i : Nat)
  | localSet (text : Bytes)
  | txPoolQuery
  | answerTxPool (raws : List Bytes)

section Steps

variable [Envelope]

/-- The branches `set_tx`, `set_share` and `set_dkg_share`. -/
def accept (cargo : Cargo) (raw : Bytes) (h : Hub) : Hub :=
  if Envelope.decodes cargo raw then
    { h with pools := Function.update h.pools cargo ((h.pools cargo).insert raw) }
  else h

def close (i : Nat) (link : Link) (h : Hub) : Hub :=
  { h with links := h.links.insert i { link with closing := true } }

def introduce (i : Nat) (link : Link) (name : Bytes) (h : Hub) : Hub :=
  if name ∈ h.peers then h.close i link
  else { h with
    links := h.links.insert i { link with nodeid := some name }
    peers := h.peers.insert name i
    peersIp := h.peersIp.insert name link.host }

def rows (h : Hub) : List (Bytes × Bytes) := h.peersIp.entries.map fun row => (row.1, row.2)

/-- The peers that `set_peers` connects to. -/
def strangers (rows : List (Bytes × Bytes)) (h : Hub) : List Bytes :=
  (rows.filter fun row => row.1 ∉ h.peersIp ∧ row.1 ≠ h.nodeid).map Prod.snd

def receive (i : Nat) (link : Link) (h : Hub) : PeerMessage → Hub × List Note
  | .ping => (h, [.send i .pong])
  | .getPeers => (h, [.send i (.setPeers h.rows)])
  | .setPeers rows =>
      if h.bootstrap then
        match rows with
        | some rows => (h, (h.strangers rows).map .dial ++ [.send i .getNumBlocks])
        | none => (h.close i link, [])
      else (h, [])
  | .set cargo raw => (h.accept cargo raw, [])
  | .getTxPool =>
      (if h.bootstrap then h else { h with txPoolQuery := h.txPoolQuery.insert i }, [])
  | .setTxPool raws =>
      if h.bootstrap && !h.txPool then
        match raws with
        | some raws => ({ raws.foldl (fun h raw => h.accept .tx raw) h with txPool := true }, [])
        | none => (h.close i link, [])
      else (h, [])
  | .other => (h, [])

def lineReceived (i : Nat) (text : Bytes) (h : Hub) : Hub × List Note :=
  match h.links.lookup i with
  | none => (h, [])
  | some link =>
      match link.nodeid with
      | none => (h.introduce i link text, [])
      | some _ =>
          match Envelope.read text with
          | some message => h.receive i link message
          | none => (h.close i link, [])

/-- `del` raises when there is no such key. -/
def connectionLost (i : Nat) (h : Hub) : Hub × Except PyExc (List Note) :=
  match h.links.lookup i with
  | none => (h, .ok [])
  | some link =>
      let h := { h with links := h.links.erase i }
      match link.nodeid with
      | none => (h, .ok [])
      | some name =>
          if name ∈ h.peers then
            let h := { h with peers := h.peers.erase name }
            if name ∈ h.peersIp then ({ h with peersIp := h.peersIp.erase name }, .ok [])
            else (h, .error ⟨.keyError, ""⟩)
          else (h, .error ⟨.keyError, ""⟩)

def sendPeers (text : Bytes) (h : Hub) : List Note :=
  h.peers.entries.map fun row => .send row.2 (.line text)

/-- `random.choice` raises for an empty list. -/
def sendMsgRandomPeer (i : Nat) (message : Outgoing) (h : Hub) : Except PyExc (List Note) :=
  match h.peers.entries[i % h.peers.entries.length]? with
  | none => .error ⟨.indexError, "list index out of range"⟩
  | some row => .ok [.send row.2 message]

def checkTx (i : Nat) (h : Hub) : Hub × Except PyExc (List Note) :=
  if h.txPool then ({ h with bootstrap := false }, .ok [])
  else (h, h.sendMsgRandomPeer i .getTxPool)

def localGet (cargo : Cargo) (i : Nat) (h : Hub) : Hub × List Note :=
  match (h.pools cargo)[i % (h.pools cargo).length]? with
  | none => (h, [.answer .none])
  | some raw =>
      ({ h with pools := Function.update h.pools cargo ((h.pools cargo).erase raw) },
        [.answer (.item cargo raw)])

def returns : Hub × List Note → Hub × Except PyExc (List Note)
  | (h, notes) => (h, .ok notes)

def handle (h : Hub) : Event → Hub × Except PyExc (List Note)
  | .connected host => returns
      ({ h with next := h.next + 1, links := h.links.insert h.next ⟨none, host, false⟩ },
        [.send h.next (.nodeid h.nodeid)])
  | .bootstrapProtocol i => returns ({ h with bootstrap := true }, [.send i .getPeers])
  | .line i text => returns (h.lineReceived i text)
  | .lost i => h.connectionLost i
  | .checkTx i => h.checkTx i
  | .localGet cargo i => returns (h.localGet cargo i)
  | .localSet text => returns (h, h.sendPeers text)
  | .txPoolQuery => returns (h, [.answer (.bool (h.txPoolQuery ≠ []))])
  | .answerTxPool raws => returns
      ({ h with txPoolQuery := [] }, h.txPoolQuery.map fun i => .send i (.setTxPool raws))

/-- The reactor logs what a step raises and goes on. -/
def step (h : Hub) (e : Event) : Hub × List Note :=
  match h.handle e with
  | (h, .ok notes) => (h, notes)
  | (h, .error _) => (h, [])

def run : List Event → Hub → Hub × List Note
  | [], h => (h, [])
  | e :: events, h =>
      let (h, notes) := h.step e
      let (h, more) := run events h
      (h, notes ++ more)

def brought (h : Hub) : PeerMessage → List (Cargo × Bytes)
  | .set cargo raw => if Envelope.decodes cargo raw then [(cargo, raw)] else []
  | .setTxPool raws =>
      if h.bootstrap && !h.txPool then
        ((raws.getD []).filter fun raw => Envelope.decodes .tx raw).map fun raw => (.tx, raw)
      else []
  | _ => []

/-- What a step takes from a peer that has introduced itself. -/
def arrivals (h : Hub) : Event → List (Cargo × Bytes)
  | .line i text =>
      match h.links.lookup i with
      | none => []
      | some link =>
          match link.nodeid with
          | none => []
          | some _ => ((Envelope.read text).map h.brought).getD []
  | _ => []

end Steps

structure Tabled (h : Hub) : Prop where
  numbered : ∀ i link, h.links.lookup i = some link → i < h.next
  named : ∀ name i, h.peers.lookup name = some i ↔
    ∃ link, h.links.lookup i = some link ∧ link.nodeid = some name
  hosts : ∀ name, h.peersIp.lookup name =
    (h.peers.lookup name).bind fun i => (h.links.lookup i).map Link.host

variable {h : Hub}

theorem tabled_start (nodeid : Bytes) : (start nodeid).Tabled where
  numbered i link found := by
    rw [start, AList.lookup_empty] at found
    cases found
  named name i := by
    simp only [start, AList.lookup_empty]
    simp
  hosts name := rfl

theorem Tabled.numbered_insert (tabled : h.Tabled) {i : Nat} {link : Link}
    (found : h.links.lookup i = some link) (link' : Link) (j : Nat) (other : Link)
    (place : (h.links.insert i link').lookup j = some other) : j < h.next := by
  by_cases same : j = i
  · rw [same]
    exact tabled.numbered i link found
  · rw [AList.lookup_insert_ne same] at place
    exact tabled.numbered j other place

theorem Tabled.apart (tabled : h.Tabled) {i : Nat} {link : Link} {name : Bytes}
    (found : h.links.lookup i = some link) (unlike : link.nodeid ≠ some name) :
    h.peers.lookup name ≠ some i := by
  intro known
  rcases (tabled.named name i).mp known with ⟨link', place, named⟩
  rw [found] at place
  cases place
  exact unlike named

/-- The host of a peer is read of its own connection. -/
theorem Tabled.hosts_beside (tabled : h.Tabled) {i : Nat} {name : Bytes}
    (beside : h.peers.lookup name ≠ some i) {links : AList fun _ : Nat => Link}
    (kept : ∀ j, j ≠ i → links.lookup j = h.links.lookup j) : h.peersIp.lookup name =
      (h.peers.lookup name).bind fun j => (links.lookup j).map Link.host := by
  rw [tabled.hosts]
  cases known : h.peers.lookup name with
  | none => rfl
  | some j =>
      have differs : j ≠ i := fun same => beside (by rw [known, same])
      simp only [Option.bind_some, kept j differs]

theorem Tabled.relink (tabled : h.Tabled) {i : Nat} {link link' : Link}
    (found : h.links.lookup i = some link) (name : link'.nodeid = link.nodeid)
    (host : link'.host = link.host) : Tabled { h with links := h.links.insert i link' } where
  numbered := tabled.numbered_insert found _
  named other j := by
    rw [tabled.named]
    by_cases same : j = i
    · subst same
      simp only [AList.lookup_insert, found, Option.some.injEq, exists_eq_left', name]
    · simp only [AList.lookup_insert_ne same]
  hosts other := by
    rw [tabled.hosts]
    cases h.peers.lookup other with
    | none => rfl
    | some j =>
        by_cases same : j = i
        · subst same
          simp only [Option.bind_some, AList.lookup_insert, found, Option.map_some, host]
        · simp only [Option.bind_some, AList.lookup_insert_ne same]

theorem Tabled.connected (tabled : h.Tabled) (host : Bytes) : Tabled { h with
    next := h.next + 1
    links := h.links.insert h.next ⟨none, host, false⟩ } where
  numbered i link found := by
    change i < h.next + 1
    by_cases same : i = h.next
    · omega
    · rw [AList.lookup_insert_ne same] at found
      have earlier := tabled.numbered i link found
      omega
  named name i := by
    rw [tabled.named]
    by_cases same : i = h.next
    · subst same
      constructor
      · rintro ⟨link, found, -⟩
        exact absurd (tabled.numbered _ link found) (Nat.lt_irrefl _)
      · rintro ⟨link, found, known⟩
        rw [AList.lookup_insert] at found
        cases found
        cases known
    · simp only [AList.lookup_insert_ne same]
  hosts name := by
    refine tabled.hosts_beside ?_ fun j differs => AList.lookup_insert_ne differs
    intro known
    rcases (tabled.named name _).mp known with ⟨link, found, -⟩
    exact absurd (tabled.numbered _ link found) (Nat.lt_irrefl _)

theorem Tabled.introduced (tabled : h.Tabled) {i : Nat} {link : Link} {name : Bytes}
    (found : h.links.lookup i = some link) (unnamed : link.nodeid = none) (new : name ∉ h.peers) :
    Tabled { h with
      links := h.links.insert i { link with nodeid := some name }
      peers := h.peers.insert name i
      peersIp := h.peersIp.insert name link.host } where
  numbered := tabled.numbered_insert found _
  named other j := by
    have absent : h.peers.lookup name = none := AList.lookup_eq_none.mpr new
    by_cases which : other = name
    · subst which
      rw [AList.lookup_insert]
      by_cases same : j = i
      · subst same
        simp only [AList.lookup_insert, Option.some.injEq, exists_eq_left']
      · rw [AList.lookup_insert_ne same, ← tabled.named, absent]
        simp [Ne.symm same]
    · rw [AList.lookup_insert_ne which, tabled.named]
      by_cases same : j = i
      · subst same
        simp only [AList.lookup_insert, found, Option.some.injEq, exists_eq_left', unnamed]
        simp [Ne.symm which]
      · simp only [AList.lookup_insert_ne same]
  hosts other := by
    by_cases which : other = name
    · subst which
      simp only [AList.lookup_insert, Option.bind_some, Option.map_some]
    · have unlike : link.nodeid ≠ some other := by
        rw [unnamed]
        exact (Option.some_ne_none other).symm
      rw [AList.lookup_insert_ne which, AList.lookup_insert_ne which]
      exact tabled.hosts_beside (tabled.apart found unlike)
        fun j differs => AList.lookup_insert_ne differs

theorem Tabled.lost (tabled : h.Tabled) (i : Nat) :
    ∃ h', h.connectionLost i = (h', .ok []) ∧ h'.Tabled ∧ h'.pools = h.pools := by
  rw [connectionLost]
  cases found : h.links.lookup i with
  | none => exact ⟨h, rfl, tabled, rfl⟩
  | some link =>
      dsimp only
      have others (j : Nat) (other : Link) (place : (h.links.erase i).lookup j = some other) :
          j ≠ i ∧ h.links.lookup j = some other := by
        by_cases same : j = i
        · subst same
          rw [AList.lookup_erase] at place
          cases place
        · rw [AList.lookup_erase_ne same] at place
          exact ⟨same, place⟩
      cases name : link.nodeid with
      | none =>
          refine ⟨_, rfl, ⟨?_, ?_, ?_⟩, rfl⟩
          · intro j other place
            exact tabled.numbered j other (others j other place).2
          · intro other j
            rw [tabled.named]
            by_cases same : j = i
            · subst same
              simp only [AList.lookup_erase, found, Option.some.injEq, exists_eq_left', name]
              simp
            · simp only [AList.lookup_erase_ne same]
          · intro other
            have unlike : link.nodeid ≠ some other := by
              rw [name]
              exact (Option.some_ne_none other).symm
            exact tabled.hosts_beside (tabled.apart found unlike)
              fun j differs => AList.lookup_erase_ne differs
      | some name' =>
          have known : h.peers.lookup name' = some i :=
            (tabled.named name' i).mpr ⟨link, found, name⟩
          have kept : h.peersIp.lookup name' = some link.host := by
            rw [tabled.hosts, known, Option.bind_some, found]
            rfl
          have there : name' ∈ h.peers := AList.lookup_isSome.mp (by rw [known]; rfl)
          have dialled : name' ∈ h.peersIp := AList.lookup_isSome.mp (by rw [kept]; rfl)
          dsimp only
          rw [if_pos there, if_pos dialled]
          refine ⟨_, rfl, ⟨?_, ?_, ?_⟩, rfl⟩
          · intro j other place
            exact tabled.numbered j other (others j other place).2
          · intro other j
            by_cases which : other = name'
            · subst which
              rw [AList.lookup_erase]
              by_cases same : j = i
              · subst same
                simp only [AList.lookup_erase]
                simp
              · rw [AList.lookup_erase_ne same, ← tabled.named, known]
                simp [Ne.symm same]
            · rw [AList.lookup_erase_ne which, tabled.named]
              by_cases same : j = i
              · subst same
                simp only [AList.lookup_erase, found, Option.some.injEq, exists_eq_left', name]
                simp [Ne.symm which]
              · simp only [AList.lookup_erase_ne same]
          · intro other
            by_cases which : other = name'
            · subst which
              rw [AList.lookup_erase, AList.lookup_erase]
              rfl
            · have unlike : link.nodeid ≠ some other := by
                rw [name]
                exact fun same => which (Option.some.inj same).symm
              rw [AList.lookup_erase_ne which, AList.lookup_erase_ne which]
              exact tabled.hosts_beside (tabled.apart found unlike)
                fun j differs => AList.lookup_erase_ne differs

section Pools

variable [Envelope]

structure Pooled (h : Hub) : Prop where
  decoded : ∀ cargo, ∀ raw ∈ h.pools cargo, Envelope.decodes cargo raw = true
  distinct : ∀ cargo, (h.pools cargo).Nodup

theorem accept_eq (cargo : Cargo) (raw : Bytes) (h : Hub) :
    h.accept cargo raw = { h with pools := (h.accept cargo raw).pools } := by
  rw [accept]
  split
  · rfl
  · rfl

theorem mem_pools_accept {cargo other : Cargo} {raw text : Bytes} :
    text ∈ (h.accept cargo raw).pools other ↔ text ∈ h.pools other ∨
      (other = cargo ∧ text = raw ∧ Envelope.decodes cargo raw = true) := by
  rw [accept]
  by_cases decodes : Envelope.decodes cargo raw = true
  · rw [if_pos decodes]
    by_cases same : other = cargo
    · subst same
      simp [decodes, or_comm]
    · simp [same]
  · rw [if_neg decodes]
    simp [decodes]

omit [Envelope] in
theorem nodup_update {pools : Cargo → List Bytes} (distinct : ∀ cargo, (pools cargo).Nodup)
    {cargo : Cargo} {raws : List Bytes} (nodup : raws.Nodup) (other : Cargo) :
    (Function.update pools cargo raws other).Nodup := by
  by_cases same : other = cargo
  · rw [same, Function.update_self]
    exact nodup
  · rw [Function.update_of_ne same]
    exact distinct other

theorem Pooled.accept (pooled : h.Pooled) (cargo : Cargo) (raw : Bytes) :
    (h.accept cargo raw).Pooled where
  decoded other text member := by
    rcases mem_pools_accept.mp member with before | ⟨rfl, rfl, decodes⟩
    · exact pooled.decoded other text before
    · exact decodes
  distinct other := by
    rw [Hub.accept]
    split
    · exact nodup_update pooled.distinct (pooled.distinct cargo).insert other
    · exact pooled.distinct other

theorem mem_pools_foldl {raws : List Bytes} {other : Cargo} {text : Bytes} :
    text ∈ (raws.foldl (fun h raw => h.accept .tx raw) h).pools other ↔ text ∈ h.pools other ∨
      (other = .tx ∧ text ∈ raws ∧ Envelope.decodes .tx text = true) := by
  induction raws generalizing h with
  | nil => simp
  | cons raw raws ih =>
      rw [List.foldl_cons, ih, mem_pools_accept, List.mem_cons]
      constructor
      · rintro ((before | ⟨rfl, rfl, decodes⟩) | ⟨rfl, later, decodes⟩)
        · exact Or.inl before
        · exact Or.inr ⟨rfl, Or.inl rfl, decodes⟩
        · exact Or.inr ⟨rfl, Or.inr later, decodes⟩
      · rintro (before | ⟨rfl, rfl | later, decodes⟩)
        · exact Or.inl (Or.inl before)
        · exact Or.inl (Or.inr ⟨rfl, rfl, decodes⟩)
        · exact Or.inr ⟨rfl, later, decodes⟩

theorem Pooled.foldl (pooled : h.Pooled) (raws : List Bytes) :
    (raws.foldl (fun h raw => h.accept .tx raw) h).Pooled := by
  induction raws generalizing h with
  | nil => exact pooled
  | cons raw raws ih => exact ih (pooled.accept .tx raw)

theorem foldl_eq (raws : List Bytes) (h : Hub) : raws.foldl (fun h raw => h.accept .tx raw) h =
    { h with pools := (raws.foldl (fun h raw => h.accept .tx raw) h).pools } := by
  induction raws generalizing h with
  | nil => rfl
  | cons raw raws ih =>
      rw [List.foldl_cons, ih, accept_eq]

structure Sound (h : Hub) : Prop extends h.Tabled, h.Pooled

/-- What is taken out of a pool for the process of the chain. -/
def handed (cargo : Cargo) (raw : Bytes) : Note := .answer (.item cargo raw)

omit [Envelope] in
theorem sendMsgRandomPeer_cases (i : Nat) (message : Outgoing) :
    (h.peers = ∅ ∧
      h.sendMsgRandomPeer i message = .error ⟨.indexError, "list index out of range"⟩) ∨
    (h.peers ≠ ∅ ∧ ∃ link, h.sendMsgRandomPeer i message = .ok [.send link message]) := by
  rw [sendMsgRandomPeer]
  by_cases empty : h.peers.entries = []
  · refine Or.inl ⟨AList.ext empty, ?_⟩
    simp [empty]
  · have place := Nat.mod_lt i (List.length_pos_of_ne_nil empty)
    rw [List.getElem?_eq_getElem place]
    refine Or.inr ⟨?_, _, rfl⟩
    intro none
    exact empty (congrArg AList.entries none)

/-- What a step does to the pools: what arrives goes in, and one text at most goes out. -/
structure Passes (h h' : Hub) (notes : List Note) (arrivals : List (Cargo × Bytes)) : Prop where
  pooled : h'.Pooled
  member : ∀ cargo raw, raw ∈ h'.pools cargo ↔
    (raw ∈ h.pools cargo ∧ handed cargo raw ∉ notes) ∨ (cargo, raw) ∈ arrivals
  taken : ∀ cargo raw, handed cargo raw ∈ notes → raw ∈ h.pools cargo
  once : ∀ cargo raw, notes.count (handed cargo raw) ≤ 1
  alone : ∀ cargo raw, handed cargo raw ∈ notes → arrivals = []

theorem Passes.of_silent {h h' : Hub} {notes : List Note} {arrivals : List (Cargo × Bytes)}
    (pooled : h'.Pooled) (silent : ∀ cargo raw, handed cargo raw ∉ notes)
    (member : ∀ cargo raw, raw ∈ h'.pools cargo ↔ raw ∈ h.pools cargo ∨ (cargo, raw) ∈ arrivals) :
    Passes h h' notes arrivals where
  pooled := pooled
  member cargo raw := by
    rw [member, and_iff_left (silent cargo raw)]
  taken cargo raw there := absurd there (silent cargo raw)
  once cargo raw := by
    rw [List.count_eq_zero.mpr (silent cargo raw)]
    exact Nat.zero_le 1
  alone cargo raw there := absurd there (silent cargo raw)

theorem Passes.of_pools (pooled : h.Pooled) {h' : Hub} {notes : List Note}
    (same : h'.pools = h.pools) (silent : ∀ cargo raw, handed cargo raw ∉ notes) :
    Passes h h' notes [] := by
  refine .of_silent ⟨?_, ?_⟩ silent ?_
  · rw [same]
    exact pooled.decoded
  · rw [same]
    exact pooled.distinct
  · intro cargo raw
    rw [same]
    simp

theorem Pooled.mem_erased (pooled : h.Pooled) {cargo other : Cargo} {raw text : Bytes} :
    raw ∈ Function.update h.pools cargo ((h.pools cargo).erase text) other ↔
      raw ∈ h.pools other ∧ ¬ (other = cargo ∧ raw = text) := by
  by_cases same : other = cargo
  · subst same
    rw [Function.update_self, (pooled.distinct other).mem_erase_iff]
    simp [and_comm]
  · rw [Function.update_of_ne same]
    simp [same]

theorem Pooled.localGet (pooled : h.Pooled) (cargo : Cargo) (i : Nat) :
    Passes h (h.localGet cargo i).1 (h.localGet cargo i).2 [] := by
  rw [Hub.localGet]
  cases found : (h.pools cargo)[i % (h.pools cargo).length]? with
  | none =>
      apply Passes.of_pools pooled rfl
      intro other raw
      simp [handed]
  | some text =>
      have known := List.mem_of_getElem? found
      refine ⟨⟨?_, ?_⟩, ?_, ?_, ?_, fun _ _ _ => rfl⟩
      · intro other raw member
        exact pooled.decoded other raw (pooled.mem_erased.mp member).1
      · exact nodup_update pooled.distinct ((pooled.distinct cargo).erase text)
      · intro other raw
        rw [pooled.mem_erased]
        simp [handed]
      · intro other raw there
        simp only [handed, List.mem_singleton, Note.answer.injEq, LocalAnswer.item.injEq] at there
        rcases there with ⟨rfl, rfl⟩
        exact known
      · intro other raw
        exact List.count_le_length

omit [Envelope] in
theorem Tabled.of_table (tabled : h.Tabled) {h' : Hub} (next : h'.next = h.next)
    (links : h'.links = h.links) (peers : h'.peers = h.peers) (peersIp : h'.peersIp = h.peersIp) :
    h'.Tabled where
  numbered := by
    rw [next, links]
    exact tabled.numbered
  named := by
    rw [peers, links]
    exact tabled.named
  hosts := by
    rw [peersIp, peers, links]
    exact tabled.hosts

theorem Sound.receive (sound : h.Sound) {i : Nat} {link : Link}
    (found : h.links.lookup i = some link) (message : PeerMessage) :
    (h.receive i link message).1.Tabled ∧
      Passes h (h.receive i link message).1 (h.receive i link message).2 (h.brought message) := by
  have tabled := sound.toTabled
  have pooled := sound.toPooled
  have closed : (h.close i link).Tabled := tabled.relink found rfl rfl
  cases message with
  | ping => exact ⟨tabled, .of_pools pooled rfl (by simp [Hub.receive, handed])⟩
  | getPeers => exact ⟨tabled, .of_pools pooled rfl (by simp [Hub.receive, handed])⟩
  | other => exact ⟨tabled, .of_pools pooled rfl (by simp [Hub.receive])⟩
  | setPeers rows =>
      simp only [Hub.receive]
      split
      · cases rows with
        | none => exact ⟨closed, .of_pools pooled rfl (by simp)⟩
        | some rows => exact ⟨tabled, .of_pools pooled rfl (by simp [handed])⟩
      · exact ⟨tabled, .of_pools pooled rfl (by simp)⟩
  | getTxPool =>
      simp only [Hub.receive]
      split
      · exact ⟨tabled, .of_pools pooled rfl (by simp)⟩
      · exact ⟨tabled.of_table rfl rfl rfl rfl, .of_pools pooled rfl (by simp)⟩
  | set cargo raw =>
      have same := accept_eq cargo raw h
      refine ⟨?_, .of_silent (pooled.accept cargo raw) (by simp [Hub.receive]) ?_⟩
      · rw [Hub.receive, same]
        exact tabled.of_table rfl rfl rfl rfl
      · intro other text
        rw [Hub.receive, mem_pools_accept, brought]
        split
        · rename_i decodes
          simp [decodes]
        · rename_i fails
          simp [fails]
  | setTxPool raws =>
      simp only [Hub.receive, brought]
      split
      · cases raws with
        | none => exact ⟨closed, .of_pools pooled rfl (by simp)⟩
        | some raws =>
            refine ⟨?_, .of_silent ?_ (by simp) ?_⟩
            · dsimp only
              rw [foldl_eq]
              exact tabled.of_table rfl rfl rfl rfl
            · have filled := pooled.foldl raws
              exact ⟨filled.decoded, filled.distinct⟩
            · intro other text
              refine mem_pools_foldl.trans ?_
              simp only [Option.getD_some, List.mem_map, List.mem_filter, Prod.mk.injEq]
              constructor
              · rintro (before | ⟨rfl, listed, decodes⟩)
                · exact Or.inl before
                · exact Or.inr ⟨text, ⟨listed, decodes⟩, rfl, rfl⟩
              · rintro (before | ⟨_, ⟨listed, decodes⟩, rfl, rfl⟩)
                · exact Or.inl before
                · exact Or.inr ⟨rfl, listed, decodes⟩
      · exact ⟨tabled, .of_pools pooled rfl (by simp)⟩

theorem Sound.lineReceived (sound : h.Sound) (i : Nat) (text : Bytes) :
    (h.lineReceived i text).1.Tabled ∧ Passes h (h.lineReceived i text).1
      (h.lineReceived i text).2 (h.arrivals (.line i text)) := by
  have tabled := sound.toTabled
  have pooled := sound.toPooled
  rw [Hub.lineReceived, arrivals]
  cases found : h.links.lookup i with
  | none => exact ⟨tabled, .of_pools pooled rfl (by simp)⟩
  | some link =>
      dsimp only
      cases name : link.nodeid with
      | none =>
          dsimp only
          rw [introduce]
          split
          · exact ⟨tabled.relink found rfl rfl, .of_pools pooled rfl (by simp)⟩
          · rename_i new
            exact ⟨tabled.introduced found name new, .of_pools pooled rfl (by simp)⟩
      | some known =>
          dsimp only
          cases Envelope.read text with
          | none => exact ⟨tabled.relink found rfl rfl, .of_pools pooled rfl (by simp)⟩
          | some message => exact sound.receive found message

theorem Sound.checkTx (sound : h.Sound) (i : Nat) :
    (h.step (.checkTx i)).1.Tabled ∧
      Passes h (h.step (.checkTx i)).1 (h.step (.checkTx i)).2 [] := by
  have tabled := sound.toTabled
  have pooled := sound.toPooled
  rw [Hub.step, Hub.handle, Hub.checkTx]
  by_cases arrived : h.txPool = true
  · rw [if_pos arrived]
    exact ⟨tabled.of_table rfl rfl rfl rfl, .of_pools pooled rfl (by simp)⟩
  · rw [if_neg arrived]
    rcases h.sendMsgRandomPeer_cases i .getTxPool with ⟨-, raises⟩ | ⟨-, link, asks⟩
    · rw [raises]
      exact ⟨tabled, .of_pools pooled rfl (by simp)⟩
    · rw [asks]
      exact ⟨tabled, .of_pools pooled rfl (by simp [handed])⟩

theorem Sound.step (sound : h.Sound) (e : Event) :
    (h.step e).1.Sound ∧ Passes h (h.step e).1 (h.step e).2 (h.arrivals e) := by
  have tabled := sound.toTabled
  have pooled := sound.toPooled
  suffices both : (h.step e).1.Tabled ∧ Passes h (h.step e).1 (h.step e).2 (h.arrivals e) from
    ⟨⟨both.1, both.2.pooled⟩, both.2⟩
  cases e with
  | connected host =>
      exact ⟨tabled.connected host,
        .of_pools pooled rfl (by simp [handed, Hub.step, Hub.handle, returns])⟩
  | line i text => exact sound.lineReceived i text
  | lost i =>
      rcases tabled.lost i with ⟨h', lost, tabled', same⟩
      rw [Hub.step, Hub.handle, lost]
      exact ⟨tabled', .of_pools pooled same (by simp)⟩
  | bootstrapProtocol i =>
      exact ⟨tabled.of_table rfl rfl rfl rfl,
        .of_pools pooled rfl (by simp [handed, Hub.step, Hub.handle, returns])⟩
  | checkTx i => exact sound.checkTx i
  | localGet cargo i =>
      have steady : (h.localGet cargo i).1.Tabled := by
        rw [Hub.localGet]
        split
        · exact tabled
        · exact tabled.of_table rfl rfl rfl rfl
      exact ⟨steady, pooled.localGet cargo i⟩
  | localSet text =>
      exact ⟨tabled,
        .of_pools pooled rfl (by simp [sendPeers, handed, Hub.step, Hub.handle, returns])⟩
  | txPoolQuery =>
      exact ⟨tabled, .of_pools pooled rfl (by simp [handed, Hub.step, Hub.handle, returns])⟩
  | answerTxPool raws =>
      exact ⟨tabled.of_table rfl rfl rfl rfl,
        .of_pools pooled rfl (by simp [handed, Hub.step, Hub.handle, returns])⟩

theorem Tabled.raises_iff (tabled : h.Tabled) (e : Event) (exc : PyExc) :
    (h.handle e).2 = .error exc ↔ exc = ⟨.indexError, "list index out of range"⟩ ∧
      (∃ i, e = .checkTx i) ∧ h.txPool = false ∧ h.peers = ∅ := by
  have quiet {x : Hub × List Note} (other : ∀ i, e ≠ .checkTx i) :
      (returns x).2 = .error exc ↔ exc = ⟨.indexError, "list index out of range"⟩ ∧
        (∃ i, e = .checkTx i) ∧ h.txPool = false ∧ h.peers = ∅ := by
    constructor
    · intro raises
      cases raises
    · rintro ⟨-, ⟨i, same⟩, -⟩
      exact absurd same (other i)
  cases e with
  | connected host => exact quiet nofun
  | bootstrapProtocol i => exact quiet nofun
  | line i text => exact quiet nofun
  | lost i =>
      rcases tabled.lost i with ⟨h', lost, -⟩
      rw [Hub.handle, lost]
      exact quiet (x := (h', [])) nofun
  | checkTx i =>
      rw [Hub.handle, Hub.checkTx]
      cases arrived : h.txPool with
      | true => simp
      | false =>
          rcases h.sendMsgRandomPeer_cases i .getTxPool with ⟨none, raises⟩ | ⟨some, link, asks⟩
          · simp [raises, none, eq_comm]
          · simp [asks, some]
  | localGet cargo i => exact quiet nofun
  | localSet text => exact quiet nofun
  | txPoolQuery => exact quiet nofun
  | answerTxPool raws => exact quiet nofun

def arrived : List Event → Hub → List (Cargo × Bytes)
  | [], _ => []
  | e :: events, h => h.arrivals e ++ arrived events (h.step e).1

theorem run_append (before after : List Event) (h : Hub) : run (before ++ after) h =
    ((run after (run before h).1).1, (run before h).2 ++ (run after (run before h).1).2) := by
  induction before generalizing h with
  | nil => rfl
  | cons e before ih =>
      simp only [List.cons_append, run, ih, List.append_assoc]

theorem Sound.run (sound : h.Sound) (events : List Event) : (run events h).1.Sound := by
  induction events generalizing h with
  | nil => exact sound
  | cons e events ih => exact ih (sound.step e).1

theorem Sound.run_decodes (sound : h.Sound) {events : List Event} {cargo : Cargo} {raw : Bytes}
    (out : handed cargo raw ∈ (Hub.run events h).2) : Envelope.decodes cargo raw = true := by
  induction events generalizing h with
  | nil => cases out
  | cons e events ih =>
      rcases sound.step e with ⟨sound', passes⟩
      rcases List.mem_append.mp out with now | later
      · exact sound.decoded cargo raw (passes.taken cargo raw now)
      · exact ih sound' later

theorem Sound.run_keeps (sound : h.Sound) (events : List Event) {cargo : Cargo} {raw : Bytes}
    (member : raw ∈ h.pools cargo) :
    raw ∈ (Hub.run events h).1.pools cargo ∨ handed cargo raw ∈ (Hub.run events h).2 := by
  induction events generalizing h with
  | nil => exact Or.inl member
  | cons e events ih =>
      rcases sound.step e with ⟨sound', passes⟩
      by_cases out : handed cargo raw ∈ (h.step e).2
      · exact Or.inr (List.mem_append_left _ out)
      · have still := (passes.member cargo raw).mpr (Or.inl ⟨member, out⟩)
        rcases ih sound' still with kept | later
        · exact Or.inl kept
        · exact Or.inr (List.mem_append_right _ later)

def holds (h : Hub) (cargo : Cargo) (raw : Bytes) : Nat := if raw ∈ h.pools cargo then 1 else 0

omit [Envelope] in
theorem holds_of_mem {cargo : Cargo} {raw : Bytes} (member : raw ∈ h.pools cargo) :
    h.holds cargo raw = 1 := if_pos member

omit [Envelope] in
theorem holds_le (cargo : Cargo) (raw : Bytes) : h.holds cargo raw ≤ 1 := by
  rw [holds]
  split
  · exact le_rfl
  · exact Nat.zero_le 1

theorem Passes.counts {h' : Hub} {notes : List Note} {arrivals : List (Cargo × Bytes)}
    (passes : Passes h h' notes arrivals) (cargo : Cargo) (raw : Bytes) :
    notes.count (handed cargo raw) + h'.holds cargo raw ≤
      h.holds cargo raw + arrivals.count (cargo, raw) := by
  by_cases out : handed cargo raw ∈ notes
  · have before := holds_of_mem (passes.taken cargo raw out)
    have gone : h'.holds cargo raw = 0 := by
      apply if_neg
      rw [passes.member, passes.alone cargo raw out]
      simp [out]
    have once := passes.once cargo raw
    omega
  · rw [List.count_eq_zero.mpr out]
    by_cases after : raw ∈ h'.pools cargo
    · have most := h'.holds_le cargo raw
      rcases (passes.member cargo raw).mp after with ⟨before, -⟩ | arrives
      · have here := holds_of_mem before
        omega
      · have some := List.count_pos_iff.mpr arrives
        omega
    · have none : h'.holds cargo raw = 0 := if_neg after
      omega

theorem Sound.run_counts (sound : h.Sound) (events : List Event) (cargo : Cargo) (raw : Bytes) :
    (Hub.run events h).2.count (handed cargo raw) + (Hub.run events h).1.holds cargo raw ≤
      h.holds cargo raw + (arrived events h).count (cargo, raw) := by
  induction events generalizing h with
  | nil =>
      rw [arrived, Hub.run, List.count_nil, List.count_nil]
      dsimp only
      omega
  | cons e events ih =>
      rcases sound.step e with ⟨sound', passes⟩
      have now := passes.counts cargo raw
      have later := ih sound'
      rw [arrived, List.count_append]
      simp only [Hub.run, List.count_append]
      omega

theorem sound_start (nodeid : Bytes) : (start nodeid).Sound where
  toTabled := tabled_start nodeid
  decoded cargo raw member := by cases member
  distinct cargo := List.nodup_nil

omit [Envelope] in
theorem Tabled.sendPeers (tabled : h.Tabled) (text : Bytes) : (h.sendPeers text).Nodup ∧
    ∀ i, Note.send i (.line text) ∈ h.sendPeers text ↔
      ∃ link name, h.links.lookup i = some link ∧ link.nodeid = some name := by
  have listed (name : Bytes) (i : Nat) :
      (⟨name, i⟩ : Sigma fun _ : Bytes => Nat) ∈ h.peers.entries ↔
        ∃ link, h.links.lookup i = some link ∧ link.nodeid = some name :=
    AList.mem_lookup_iff.symm.trans (tabled.named name i)
  constructor
  · apply List.Nodup.map_on
    · rintro ⟨name, i⟩ here ⟨other, j⟩ there same
      rcases (listed name i).mp here with ⟨link, found, named⟩
      rcases (listed other j).mp there with ⟨link', found', named'⟩
      cases same
      rw [found] at found'
      cases found'
      rw [named] at named'
      cases named'
      rfl
    · exact List.Nodup.of_map _ h.peers.nodupKeys
  · intro i
    rw [Hub.sendPeers, List.mem_map]
    constructor
    · rintro ⟨⟨name, j⟩, member, same⟩
      cases same
      rcases (listed name j).mp member with ⟨link, found, named⟩
      exact ⟨link, name, found, named⟩
    · rintro ⟨link, name, found, named⟩
      exact ⟨⟨name, i⟩, (listed name i).mpr ⟨link, found, named⟩, rfl⟩

/-- In whatever order connections come and go, peers send and the process of the chain asks, the
peers are the open connections with a name, no two with one. The one step that raises asks for
the pool of transactions when there is no peer. A transaction or a share that is handed over was
decoded, no text is handed over more often than it arrived, and what has arrived is handed over
later or still waits. -/
theorem relays (nodeid : Bytes) (events : List Event) :
    let (h, notes) := run events (start nodeid)
    h.Tabled ∧
      (∀ text, (h.sendPeers text).Nodup ∧ ∀ i, Note.send i (.line text) ∈ h.sendPeers text ↔
        ∃ link name, h.links.lookup i = some link ∧ link.nodeid = some name) ∧
      (∀ cargo raw, handed cargo raw ∈ notes → Envelope.decodes cargo raw = true) ∧
      (∀ cargo raw, notes.count (handed cargo raw) + h.holds cargo raw ≤
        (arrived events (start nodeid)).count (cargo, raw)) ∧
      ∀ before e after, events = before ++ e :: after →
        let (m, first) := run before (start nodeid)
        (∀ exc, (m.handle e).2 = .error exc ↔ exc = ⟨.indexError, "list index out of range"⟩ ∧
          (∃ i, e = .checkTx i) ∧ m.txPool = false ∧ m.peers = ∅) ∧
        ∀ cargo raw, (cargo, raw) ∈ m.arrivals e → ∃ more, notes = first ++ more ∧
          (raw ∈ h.pools cargo ∨ handed cargo raw ∈ more) := by
  have sound := sound_start nodeid
  have sound' := sound.run events
  refine ⟨sound'.toTabled, sound'.toTabled.sendPeers, fun cargo raw => sound.run_decodes, ?_, ?_⟩
  · intro cargo raw
    have counts := sound.run_counts events cargo raw
    have nothing : (start nodeid).holds cargo raw = 0 := if_neg List.not_mem_nil
    omega
  · rintro before e after rfl
    have middle := sound.run before
    refine ⟨middle.toTabled.raises_iff e, ?_⟩
    intro cargo raw arrives
    rcases middle.step e with ⟨soundK, passes⟩
    have there := (passes.member cargo raw).mpr (Or.inr arrives)
    rw [run_append]
    refine ⟨_, rfl, ?_⟩
    rcases soundK.run_keeps after there with kept | out
    · exact Or.inl kept
    · exact Or.inr (List.mem_append_right _ out)

end Pools

/-- A transaction that two peers send is passed on once, and with no peer `check_tx` raises. -/
example :
    letI : Envelope := ⟨fun _ => some (.set .tx [7]), fun _ _ => true⟩
    (run [.checkTx 0, .connected [1], .line 0 [3], .connected [2], .line 1 [4], .line 0 [],
      .line 1 [], .localGet .tx 0, .localGet .tx 0, .localSet [9]] (start [0])).2 =
      [.send 0 (.nodeid [0]), .send 1 (.nodeid [0]), .answer (.item .tx [7]), .answer .none,
        .send 1 (.line [9]), .send 0 (.line [9])] := by
  decide

end Hub

end IPchain
