import IPchain.Expectation
import IPchain.Rejection

/-! The group key that a node verifies with, and what it verifies. -/

namespace IPchain

open Lib Platform

theorem encodeHex_injective {x y : Bytes} (same : encodeHex x = encodeHex y) : x = y := by
  have decoded := decodeHex_encodeHex x
  rw [same, decodeHex_encodeHex] at decoded
  exact (Except.ok.inj decoded).symm

namespace Node

section Force

variable [NodeConfig]

/-- The group key in force after the blocks: the last one that a block has renewed. -/
def keyInForce (key : Bytes) (blocks : List Block) : Bytes :=
  blocks.foldl (fun key block =>
    if renews block.header.number then block.header.groupPubkey else key) key

theorem keyInForce_append (key : Bytes) (blocks others : List Block) :
    keyInForce key (blocks ++ others) = keyInForce (keyInForce key blocks) others :=
  List.foldl_append

end Force

section Signed

variable {S R : Type} [IPSet S] [Hashlib] [Bls] {n m p : Node S R} {key : Bytes}

/-- The round has come to a group signature of the message that the node expects, and to its
digest. -/
def Signed (key : Bytes) (n : Node S R) : Prop :=
  n.consensus.currentRandomNo = hexdigest n.consensus.groupSig ∧
    Bls.verify (hexdigest (beaconMessage n.lastRandomNo n.blockNum n.count))
      n.consensus.groupSig key = true

def usedKey (n : Node S R) : Bytes :=
  if n.exitFromDkg || n.dkgOn then n.consensus.previousGroupKey else n.consensus.groupKey

theorem verifies_eq (n : Node S R) (block : Block) :
    n.verifies block = Bls.verify (hexdigest (beaconMessage n.lastRandomNo n.blockNum n.count))
      block.header.groupSig n.usedKey := rfl

variable [Platform] [NodeConfig]

theorem newRound_frame {now : Nat} (begun : newRound now n = .ok () m) :
    m.lastRandomNo = n.lastRandomNo ∧ m.blockNum = n.blockNum ∧ m.phase = n.phase ∧
      (n.count = 0 → m.count = 0) ∧ (m.dkgOn, m.exitFromDkg) = (n.dkgOn, n.exitFromDkg) ∧
        m.consensus.groupKey = n.consensus.groupKey := by
  rcases newRound_ok begun with ⟨-, rfl⟩ | ⟨-, shares, c, created, rfl⟩
  · exact ⟨rfl, rfl, rfl, fun zero => zero, rfl, rfl⟩
  · obtain ⟨-, stored⟩ := Consensus.createShares_ok created
    obtain ⟨gathers, -⟩ := Consensus.storeShares_ok stored
    exact ⟨rfl, rfl, rfl, fun _ => rfl, rfl, gathers.groupKey⟩

theorem newRound_signed {now : Nat} (begun : newRound now n = .ok () m)
    (lacking : n.consensus.verified = false) (ready : m.consensus.verified = true) :
    Signed n.consensus.groupKey m := by
  rcases newRound_ok begun with ⟨-, rfl⟩ | ⟨-, shares, c, created, rfl⟩
  · rw [lacking] at ready
    cases ready
  · obtain ⟨-, stored⟩ := Consensus.createShares_ok created
    cases (Consensus.storeShares_ok stored).1 with
    | idle =>
        have ready : n.consensus.verified = true := ready
        rw [lacking] at ready
        cases ready
    | more lacking' some =>
        have ready : n.consensus.verified = true := ready
        rw [lacking] at ready
        cases ready
    | full lacking' some valid => exact ⟨rfl, valid⟩

end Signed

section Steady

variable {S R : Type} [IPSet S] [Radix R Address] [FirstAddress S] [Platform] [Hashlib] [Bls]
  [NodeConfig] [TrieKeys S] [TrieRoot] [Poststate] [StateRoot S] [Signing] {op : Operator}
  {n m p : Node S R} {e : Event} {block : Block} {last : BlockHeader} {key : Bytes}

open NodeConfig

omit [Radix R Address] [Platform] [Hashlib] [Bls] [NodeConfig] [TrieKeys S] [TrieRoot]
  [Poststate] [StateRoot S] [Signing] in
theorem Passed.frame {x : Option IPAddress} (passed : Passed block n x p) :
    p.count = n.count ∧ p.phase = n.phase := by
  cases passed with
  | left mine out key drawn alike => exact ⟨rfl, rfl⟩
  | renewed stays on drawn alike => exact ⟨rfl, rfl⟩
  | normal stays off => exact ⟨rfl, rfl⟩

omit [Platform] [Hashlib] [Bls] [TrieRoot] [Poststate] [Signing] in
theorem keyInForce_single (key : Bytes) (block : Block) : keyInForce key [block] =
    if renews block.header.number then block.header.groupPubkey else key := rfl

omit [Radix R Address] [StateRoot S] in
omit [Bls] [TrieRoot] [Poststate] [Signing] in
theorem Drawn.frame {x : Option IPAddress} (drawn : Drawn op block n x p) :
    p.dkgOn = n.dkgOn ∧ p.exitFromDkg = n.exitFromDkg ∧ p.count = n.count ∧
      p.phase = n.phase ∧ p.consensus.groupKey = keyInForce n.consensus.groupKey [block] := by
  rw [keyInForce_single]
  cases drawn with
  | renewed number known drawn alike =>
      rw [number]
      exact ⟨rfl, rfl, rfl, rfl, rfl⟩
  | normal number =>
      rw [number]
      exact ⟨rfl, rfl, rfl, rfl, rfl⟩

omit [NodeConfig] [TrieKeys S] [TrieRoot] [Poststate] [StateRoot S] [Signing] in
theorem checkBlock_phase {b : Bool} (checked : checkBlock block n = .ok b p) :
    p.phase = n.phase := by
  cases b with
  | true =>
      obtain ⟨-, x, q, s, passed, -, -, rfl⟩ := checkBlock_true checked
      exact passed.frame.2
  | false =>
      rcases checkBlock_false checked with ⟨-, rfl⟩ | ⟨-, x, q, s, passed, -, -, rfl⟩
      · rfl
      · exact passed.frame.2

omit [TrieRoot] [Poststate] [StateRoot S] [Signing] in
theorem checkBootstrap_phase {b : Bool} (checked : checkBootstrap op block n = .ok b p) :
    p.phase = n.phase := by
  cases b with
  | true =>
      obtain ⟨-, -, x, q, s, drawn, -, -, rfl⟩ := checkBootstrap_true checked
      exact drawn.frame.2.2.2.1
  | false =>
      rcases checkBootstrap_false checked with ⟨rfl, -, -⟩ | ⟨x, q, s, drawn, -, -, rfl⟩
      · rfl
      · exact drawn.frame.2.2.2.1

theorem handled_later (handled : handle op e n = .ok () m) (later : n.phase ≠ .bootstrap) :
    m.phase ≠ .bootstrap := by
  have stays {phase : Phase} (stays : n.Stays phase) : phase ≠ .bootstrap := by
    rcases stays with rfl | later
    · exact later
    · exact later
  cases handle_moves handled with
  | idles nothing idles =>
      obtain ⟨svc, phase, processed, sent, calls, kept, rfl⟩ := idles
      exact stays kept
  | skips checked =>
      rw [checkBlock_phase checked]
      exact later
  | adopts checked adopted =>
      obtain ⟨svc, head, signer, -, -, -, begun⟩ := adoptBlock_ok adopted
      obtain ⟨-, -, phase, -⟩ := newRound_frame begun
      rw [phase]
      exact checkBlock_phase checked ▸ later
  | bootSkips checked =>
      rw [checkBootstrap_phase checked]
      exact later
  | bootAdopts checked adopted =>
      obtain ⟨svc, signer, -, -, rfl⟩ := adoptBootstrap_ok adopted
      exact checkBootstrap_phase checked ▸ later
  | begins found => exact fun boot => nomatch boot
  | waits made => exact fun boot => nomatch boot
  | makes made adopted => exact fun boot => nomatch boot
  | gathers nothing out gathered =>
      obtain ⟨c, cache, phase, sent, -, kept, rfl⟩ := gathered
      exact stays kept
  | watches kept => exact fun boot => nomatch boot
  | triggers triggered => exact fun boot => nomatch boot
  | contributes contributed =>
      obtain ⟨c, on, out, cache, sent, phase, -, -, -, kept, rfl⟩ := contributed
      exact stays kept

/-- The node is at the head of its chain and verifies with the key in force. While a new key is
generated the round is over. -/
structure Steady (op : Operator) (last : BlockHeader) (key : Bytes) (n : Node S R) : Prop where
  placed : Placed op last n
  count : n.count = 0
  number : n.blockNum = last.number
  random : n.lastRandomNo = encodeHex last.randomNumber
  written : ∃ data, n.consensus.currentRandomNo = encodeHex data
  boots : n.phase = .bootstrap → n.dkgOn = false ∧ n.exitFromDkg = false
  mine : n.exitFromDkg = true → n.inDkgGroup = true ∧ n.dkgOn = false
  waits : n.awaits = true → renews (n.blockNum + 1) = true ∧ n.consensus.verified = true
  current : n.usedKey = key
  signed : n.consensus.verified = true →
    n.consensus.currentRandomNo = n.lastRandomNo ∨ n.Signed key

/-- A step that leaves the node with the key in force. What passes the checks is due; a block
that is verified with the previous key passes them all; one that renews the key without a key
generation brings the key that the node has; and so does one that the bootstrap skips. -/
structure Keeps (op : Operator) (n : Node S R) (e : Event) : Prop where
  real : e.Real
  lets : n.Lets op e
  accepted : ∀ now depth block, e = .block now depth block → n.awaits = true →
    n.verifies block = true → ∃ p, handed op n e = some (block, p)
  renewal : ∀ now depth block p, e = .block now depth block → handed op n e = some (block, p) →
    n.awaits = false → n.Keyed block
  skipped : ∀ now depth block, e = .bootstrapBlock now depth block → handed op n e = none →
    n.Keyed block

omit [Radix R Address] [FirstAddress S] [TrieKeys S] [TrieRoot] [Poststate] [StateRoot S]
  [Signing] in
theorem Steady.down (steady : Steady op last key n) (quiet : n.awaits = false) :
    n.dkgOn = false ∧ n.exitFromDkg = false ∧ n.consensus.groupKey = key := by
  obtain ⟨stays, off⟩ := Bool.or_eq_false_iff.mp quiet
  have out : n.exitFromDkg = false := by
    cases out : n.exitFromDkg with
    | false => rfl
    | true =>
        rw [out, (steady.mine out).1] at stays
        cases stays
  have current := steady.current
  rw [usedKey, out, off] at current
  exact ⟨off, out, current⟩

omit [Radix R Address] [FirstAddress S] [TrieKeys S] [TrieRoot] [Poststate] [StateRoot S]
  [Signing] in
theorem Steady.up (steady : Steady op last key n) (busy : n.awaits = true) :
    n.consensus.previousGroupKey = key := by
  have current := steady.current
  have flags : (n.exitFromDkg || n.dkgOn) = true := by
    rw [Node.awaits, Bool.or_eq_true, Bool.and_eq_true] at busy
    rcases busy with ⟨-, out⟩ | on
    · rw [out, Bool.true_or]
    · rw [on, Bool.or_true]
  rwa [usedKey, flags] at current

omit [Radix R Address] [FirstAddress S] [Hashlib] [Bls] [NodeConfig] [TrieKeys S] [Poststate]
  [StateRoot S] [Signing] in
theorem Placed.due_number (placed : Placed op last n) {now : Nat} (due : n.Due now block) :
    block.header.number = last.number + 1 := by
  obtain ⟨⟨v, valid⟩, -⟩ := due
  obtain ⟨-, ⟨⟨header, older, newest, -, number, -⟩, -⟩, -⟩ := validateBlock_ok_iff.mp ⟨v, valid⟩
  obtain ⟨⟨older', newest'⟩, -⟩ := placed.fronted
  rw [newest'] at newest
  cases newest
  exact number

omit [Radix R Address] [TrieKeys S] [TrieRoot] [Poststate] [StateRoot S] [Signing] in
/-- The checks of the main loop end a key generation, and leave the key in force after the
block. -/
theorem Steady.passed {x : Option IPAddress} (steady : Steady op last key n)
    (number : block.header.number = n.blockNum + 1)
    (renewal : n.awaits = false → n.Keyed block) (passed : Passed block n x p) :
    p.dkgOn = false ∧ p.exitFromDkg = false ∧
      p.consensus.groupKey = keyInForce key [block] := by
  rw [keyInForce_single, number]
  cases passed with
  | left mine out same drawn alike =>
      have busy : n.awaits = true := by rw [Node.awaits, mine, out]; rfl
      rw [(steady.waits busy).1]
      exact ⟨(steady.mine out).2, rfl, same.symm⟩
  | renewed stays on drawn alike =>
      have busy : n.awaits = true := by rw [Node.awaits, on, Bool.or_true]
      have out : n.exitFromDkg = false := by
        cases out : n.exitFromDkg with
        | false => rfl
        | true => exact absurd (on.symm.trans (steady.mine out).2) (by decide)
      rw [(steady.waits busy).1]
      exact ⟨rfl, out, rfl⟩
  | normal stays off =>
      have quiet : n.awaits = false := by rw [Node.awaits, stays, off]; rfl
      obtain ⟨off, out, current⟩ := steady.down quiet
      refine ⟨off, out, ?_⟩
      split
      · rename_i renewed
        exact renewal quiet (number ▸ renewed)
      · exact current

omit [Radix R Address] [FirstAddress S] [TrieKeys S] [TrieRoot] [Poststate] [StateRoot S]
  [Signing] in
theorem steady_newRound {now : Nat} (placed : Placed op block.header m)
    (begun : newRound now p = .ok () m) (later : p.phase ≠ .bootstrap)
    (count : p.count = 0) (number : p.blockNum = block.header.number)
    (random : p.lastRandomNo = encodeHex block.header.randomNumber)
    (written : ∃ data, p.consensus.currentRandomNo = encodeHex data)
    (off : p.dkgOn = false) (out : p.exitFromDkg = false) (current : p.consensus.groupKey = key)
    (lacking : p.consensus.verified = false) :
    Steady op block.header key m ∧ (m.consensus.verified = true → m.Signed key) := by
  obtain ⟨random', number', phase, count', flags, key'⟩ := newRound_frame begun
  obtain ⟨on', out'⟩ := Prod.mk.inj flags
  have down : (m.exitFromDkg || m.dkgOn) = false := by rw [out', on', out, off]; rfl
  have quiet : m.awaits = false := by rw [Node.awaits, out', on', out, off, Bool.and_false]; rfl
  have signed (ready : m.consensus.verified = true) : m.Signed key :=
    current ▸ newRound_signed begun lacking ready
  refine ⟨⟨placed, count' count, number'.trans number, random'.trans random,
    (newRound_signer begun).2 written, ?_, ?_, ?_, ?_, fun ready => Or.inr (signed ready)⟩, signed⟩
  · intro boot
    exact absurd (phase.symm.trans boot) later
  · intro leaves
    rw [out', out] at leaves
    cases leaves
  · intro busy
    rw [quiet] at busy
    cases busy
  · rw [usedKey, down]
    exact key'.trans current

def Backed (key : Bytes) (n : Node S R) : Prop := n.consensus.verified = true → n.Signed key

structure Same (n m : Node S R) : Prop where
  consensus : m.consensus = n.consensus
  count : m.count = n.count
  number : m.blockNum = n.blockNum
  random : m.lastRandomNo = n.lastRandomNo
  on : m.dkgOn = n.dkgOn
  out : m.exitFromDkg = n.exitFromDkg
  mine : m.inDkgGroup = n.inDkgGroup
  boots : m.phase = .bootstrap → n.phase = .bootstrap

omit [Radix R Address] [FirstAddress S] [Platform] [NodeConfig] [TrieKeys S] [TrieRoot]
  [Poststate] [StateRoot S] [Signing] in
theorem Same.signed (same : Same n m) (signed : n.Signed key) : m.Signed key := by
  rw [Signed, same.consensus, same.random, same.number, same.count]
  exact signed

omit [Radix R Address] [FirstAddress S] [TrieKeys S] [TrieRoot] [Poststate] [StateRoot S]
  [Signing] in
theorem Steady.same (steady : Steady op last key n) (same : Same n m)
    (placed : Placed op last m) :
    Steady op last key m ∧ (n.Backed key → m.Backed key) := by
  have waiting : m.awaits = n.awaits := by rw [Node.awaits, same.mine, same.out, same.on]; rfl
  have used : m.usedKey = n.usedKey := by
    rw [usedKey, same.out, same.on, same.consensus]
    rfl
  constructor
  · refine ⟨placed, same.count.trans steady.count, same.number.trans steady.number,
      same.random.trans steady.random, ?_, ?_, ?_, ?_, used.trans steady.current, ?_⟩
    · rw [same.consensus]
      exact steady.written
    · rw [same.on, same.out]
      exact fun boot => steady.boots (same.boots boot)
    · rw [same.out, same.mine, same.on]
      exact steady.mine
    · rw [waiting, same.number, same.consensus]
      exact steady.waits
    · rw [same.consensus, same.random]
      intro ready
      rcases steady.signed ready with stale | signed
      · exact Or.inl stale
      · exact Or.inr (same.signed signed)
  · intro backed ready
    rw [same.consensus] at ready
    exact same.signed (backed ready)

omit [TrieKeys S] [StateRoot S] [Signing] in
theorem Steady.adopts (steady : Steady op last key n) {now depth : Nat}
    (turn : n.phase = .blocks) (due : n.Due now block)
    (renewal : n.awaits = false → n.Keyed block) (placed : Placed op block.header m)
    (checked : checkBlock block n = .ok true p)
    (adopted : adoptBlock op now depth block p = .ok () m) :
    Steady op block.header (keyInForce key [block]) m ∧ m.Backed (keyInForce key [block]) := by
  obtain ⟨-, x, q, s, passed, -, -, rfl⟩ := checkBlock_true checked
  have number : block.header.number = n.blockNum + 1 := by
    rw [steady.number]
    exact steady.placed.due_number due
  obtain ⟨off, out, current⟩ := steady.passed number renewal passed
  obtain ⟨count, phase⟩ := passed.frame
  obtain ⟨round, -⟩ := passed.round
  obtain ⟨svc, head, signer, added, found, selected, begun⟩ := adoptBlock_ok adopted
  have front : head = block.header := by
    refine placed.fronted.2 head ?_
    rw [newRound_service begun]
    exact found
  refine steady_newRound placed begun ?_ (count.trans steady.count) (congrArg BlockHeader.number front) rfl
    ?_ off out current rfl
  · intro boot
    exact absurd (turn.symm.trans (phase.symm.trans boot)) (by decide)
  · change ∃ data, (if q.fromBootstrap then encodeHex block.header.randomNumber
      else q.consensus.currentRandomNo) = encodeHex data
    split
    · exact ⟨_, rfl⟩
    · rw [round]
      exact steady.written

omit [StateRoot S] in
omit [Signing] in
theorem Steady.bootAdopts (steady : Steady op last key n) {now depth : Nat}
    (turn : n.phase = .bootstrap) (placed : Placed op block.header m)
    (checked : checkBootstrap op block n = .ok true p)
    (adopted : adoptBootstrap now depth block p = .ok () m) :
    Steady op block.header (keyInForce key [block]) m := by
  obtain ⟨-, -, x, q, s, drawn, -, -, rfl⟩ := checkBootstrap_true checked
  obtain ⟨svc, signer, added, selected, rfl⟩ := adoptBootstrap_ok adopted
  obtain ⟨off, out⟩ := steady.boots turn
  have quiet : n.awaits = false := by rw [Node.awaits, out, off, Bool.and_false]; rfl
  obtain ⟨-, -, current⟩ := steady.down quiet
  have busy (mine : Bool) : ¬ (mine && n.exitFromDkg || n.dkgOn) = true := by
    rw [out, off, Bool.and_false]
    decide
  obtain ⟨on', out', count', -, key'⟩ := drawn.frame
  rw [current] at key'
  refine ⟨placed, count'.trans steady.count, rfl, rfl, ⟨_, rfl⟩, fun _ => ⟨on'.trans off,
    out'.trans out⟩, ?_, ?_, ?_, fun _ => Or.inl rfl⟩
  · intro leaves
    exact absurd (leaves.symm.trans (out'.trans out)) (by decide)
  · intro awaits
    have awaits : (q.inDkgGroup && q.exitFromDkg || q.dkgOn) = true := awaits
    rw [on', out'] at awaits
    exact absurd awaits (busy _)
  · change (if q.exitFromDkg || q.dkgOn then q.consensus.previousGroupKey
      else q.consensus.groupKey) = keyInForce key [block]
    rw [on', out', off, out]
    exact key'

omit [FirstAddress S] in
theorem Steady.own (steady : Steady op last key n) {now depth : Nat}
    (made : makeBlock op now depth n = .ok (some block) p) :
    n.dkgOn = false ∧ n.consensus.verified = true ∧
      n.consensus.currentRandomNo = encodeHex block.header.randomNumber ∧
      block.header.groupSig = n.consensus.groupSig ∧
      Service.headerKey block.header.number (some n.consensus.groupKey) =
        .ok block.header.groupPubkey := by
  obtain ⟨head, address, secret, draft, svc, signerSet, -, -, -, off, ready, signs', run, -⟩ :=
    makeBlock_some made
  obtain ⟨_, _, _, rfl⟩ := Block.sign_eq_ok signs'
  obtain ⟨parsed, sig, grouped⟩ := Service.createBlock_beacon run
  obtain ⟨data, written⟩ := steady.written
  rw [written, Service.parseAsBin_encodeHex] at parsed
  refine ⟨off, ?_, written.trans (congrArg encodeHex (Except.ok.inj parsed)), sig, grouped⟩
  rcases ready with ready | out
  · exact ready
  · have busy : n.awaits = true := by rw [Node.awaits, (steady.mine out).1, out]; rfl
    exact (steady.waits busy).2

omit [FirstAddress S] in
theorem Steady.makes (steady : Steady op last key n) {now wait depth : Nat}
    (turn : n.phase = .sign) (number : block.header.number = n.blockNum + 1)
    (placed : Placed op block.header m)
    (made : makeBlock op now depth n = .ok (some block) p)
    (adopted : adoptOwn now wait depth block p = .ok () m) :
    Steady op block.header (keyInForce key [block]) m ∧ m.Backed (keyInForce key [block]) := by
  obtain ⟨off, -, random, -, grouped⟩ := steady.own made
  have current : n.consensus.groupKey = keyInForce key [block] := by
    have carried (renewed : renews block.header.number = true) :
        n.consensus.groupKey = block.header.groupPubkey := by
      unfold Service.headerKey at grouped
      rw [if_pos (of_decide_eq_true renewed)] at grouped
      split at grouped
      · cases grouped
      · cases grouped
      · rename_i known
        cases known
        exact Except.ok.inj grouped
    rw [keyInForce_single]
    split
    · rename_i renewed
      exact carried renewed
    · rename_i normal
      cases busy : n.awaits with
      | false => exact (steady.down busy).2.2
      | true => exact absurd (number ▸ (steady.waits busy).1) normal
  obtain ⟨head, address, secret, draft, svc, signerSet, -, -, -, -, -, -, -, rfl⟩ :=
    makeBlock_some made
  obtain ⟨svc', signer, added, selected, begun⟩ := adoptOwn_ok adopted
  refine steady_newRound placed begun ?_ rfl rfl random steady.written off rfl current rfl
  intro boot
  exact absurd (turn.symm.trans boot) (by decide)

end Steady

end Node

end IPchain
