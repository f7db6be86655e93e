import IPchain.Lasting

/-! When the blocks that a node passes on become the head of its chain. -/

namespace IPchain

open Lib Platform

section Front

variable {S R : Type} [IPSet S] [Platform]

/-- The newest header of the state is the one that the head has in the database. -/
def Chain.Fronted (first : BlockHeader) (c : Chain S R) (last : BlockHeader) : Prop :=
  (∃ older, c.state.prevHeaders = .block last :: older) ∧
    ∀ head, c.headHeader first = .ok head → head = last

variable {first last : BlockHeader} {c d : Chain S R}

theorem Chain.Fronted.reads (fronted : c.Fronted first last) (reads : c.Reads d) :
    d.Fronted first last := by
  obtain ⟨⟨older, newest⟩, found⟩ := fronted
  refine ⟨⟨older, ?_⟩, ?_⟩
  · obtain ⟨s, queue, alike, rfl⟩ := reads
    exact (congrArg AuxVars.prevHeaders alike.auxvars).trans newest
  · rw [reads.headHeader]
    exact found

theorem Chain.fronted_extended [Radix R Address] [TrieRoot] {block : Block} {s t : State S}
    {p q : R} (applied : applyBlock block (s, p) = .ok () (t, q)) :
    (c.extended block t q).Fronted first block.header := by
  obtain ⟨-, cached, u, -, rfl, -⟩ := applyBlock_eq_ok.mp applied
  exact ⟨⟨u.prevHeaders, rfl⟩, fun head found => Chain.headHeader_extended found⟩

/-- The header of the genesis, which the chain keeps. -/
def GenesisData.Roots (S : Type) [IPSet S] [StateRoot S] (g : GenesisData) (first : BlockHeader) :
    Prop :=
  ∃ (s : State S) (rows : Cached), stateFromGenesisDeclaration g = .ok (s, rows) ∧
    first = blockFromGenesisDeclaration g (StateRoot.stateRoot s.trie)

theorem Chain.fronted_init [Radix R Address] [StateRoot S] {g : GenesisData}
    (roots : g.Roots S first) (built : Chain.init g = .ok c) : c.Fronted first first := by
  obtain ⟨s, rows, genesis, rfl⟩ := roots
  obtain ⟨s', rows', header, genesis', rfl, rfl⟩ := Chain.init_spec built
  rw [genesis] at genesis'
  cases genesis'
  refine ⟨⟨[], (genesis_headers genesis).1⟩, ?_⟩
  intro head found
  simp only [Chain.headHeader, Chain.getHeadBlock, Chain.getBlock, Option.bind_some,
    AList.lookup_insert] at found
  cases found
  rfl

end Front

namespace Service

variable {S R : Type} [IPSet S] [Radix R Address] [Platform] [TrieRoot] [Poststate] [StateRoot S]
  [TrieKeys S] [Config]

theorem Reachable.fronted {g : GenesisData} {first : BlockHeader} (roots : g.Roots S first)
    {svc : Service S R} (reachable : svc.Reachable g) :
    ∃ last, svc.chain.Fronted first last := by
  induction reachable with
  | start built => exact ⟨first, Chain.fronted_init roots built⟩
  | pending reachable accepted genuine added ih =>
      obtain ⟨last, fronted⟩ := ih
      exact ⟨last, fronted.reads (pends_reads added)⟩
  | refused reachable failed ih =>
      obtain ⟨last, fronted⟩ := ih
      have calls : Calls (fun _ => True) _ _ := calls_of_error failed
      exact ⟨last, fronted.reads calls.chain⟩
  | added reachable added ih =>
      obtain ⟨last, fronted⟩ := ih
      rcases addBlock_cases reachable.ready.sane.anchored added with
        ⟨s, t, p, -, applied, -, reads⟩ | ⟨-, reads⟩
      · exact ⟨_, (Chain.fronted_extended applied).reads reads⟩
      · exact ⟨last, fronted.reads reads⟩
  | @made svc reachable now depth coinbase randomNo groupKey groupSig count ih =>
      obtain ⟨last, fronted⟩ := ih
      refine ⟨last, fronted.reads ?_⟩
      cases run : createBlock now depth coinbase randomNo groupKey groupSig count svc with
      | ok block svc' =>
          obtain ⟨a, key, randomNumber, -, -, -, -, rfl⟩ := createBlock_eq_ok.mp run
          exact Chain.reads_state (alike_scanned svc)
      | error e svc' =>
          obtain ⟨s, alike, rfl⟩ := createBlock_error run
          exact Chain.reads_state alike
  | @read svc reachable a ih =>
      obtain ⟨last, fronted⟩ := ih
      exact ⟨last, fronted.reads (Chain.reads_state (svc.chain.state.alike_read a))⟩

end Service

/-- No account of the operator has the address that stands for no signature. -/
def Operator.Signs [Signing] (op : Operator) : Prop :=
  ∀ key ∈ op.keys, Signing.privtoaddr key.2 ≠ nullAddress

namespace Node

section Handed

variable {S R : Type} [IPSet S] [Radix R Address] [FirstAddress S] [Platform] [Hashlib] [Bls]
  [NodeConfig] [TrieKeys S] [TrieRoot] [Poststate] [StateRoot S] [Signing] {op : Operator}
  {n m p : Node S R} {e : Event} {block : Block}

theorem handed_scans (passed : handed op n e = some (block, p)) : n.Scans p := by
  cases e with
  | bootstrapBlock now depth received =>
      simp only [handed] at passed
      split at passed
      · rename_i checked
        cases passed
        exact checkBootstrap_scans checked
      · cases passed
  | block now depth received =>
      simp only [handed] at passed
      split at passed
      · rename_i checked
        cases passed
        exact checkBlock_scans checked
      · cases passed
  | sign now wait depth =>
      simp only [handed] at passed
      split at passed
      · rename_i made
        cases passed
        exact makeBlock_scans made
      · cases passed
  | _ => cases passed

theorem handed_added (passed : handed op n e = some (block, p))
    (handled : handle op e n = .ok () m) :
    Service.addBlock e.clock.1 e.clock.2 block p.service = .ok () m.service := by
  cases e with
  | bootstrapBlock now depth received =>
      simp only [handed] at passed
      split at passed
      · rename_i checked
        cases passed
        obtain ⟨res, q, checked', rest⟩ := bind_eq_ok.mp handled
        cases checked.symm.trans checked'
        obtain ⟨svc, signer, added, -, rfl⟩ := adoptBootstrap_ok rest
        exact added
      · cases passed
  | block now depth received =>
      simp only [handed] at passed
      split at passed
      · rename_i checked
        cases passed
        obtain ⟨res, q, checked', rest⟩ := bind_eq_ok.mp handled
        cases checked.symm.trans checked'
        obtain ⟨svc, head, signer, added, -, -, begun⟩ := adoptBlock_ok rest
        rw [newRound_service begun]
        exact added
      · cases passed
  | sign now wait depth =>
      simp only [handed] at passed
      split at passed
      · rename_i made
        cases passed
        obtain ⟨_, q, signed, rest⟩ := bind_eq_ok.mp handled
        cases rest
        obtain ⟨made', r, run, adopted⟩ := bind_eq_ok.mp signed
        cases made.symm.trans run
        obtain ⟨svc, signer, added, -, begun⟩ := adoptOwn_ok adopted
        have same : q.service = svc := newRound_service begun
        exact added.trans (congrArg (EStateM.Result.ok ()) same.symm)
      · cases passed
  | _ => cases passed

theorem Moves.reads (moves : Moves op n e m) (nothing : handed op n e = none) :
    n.service.chain.Reads m.service.chain := by
  have scanned {p : Node S R} (scans : n.Scans p) : n.service.chain.Reads p.service.chain := by
    obtain ⟨s, alike, same⟩ := scans
    rw [same]
    exact Chain.reads_state alike
  cases moves with
  | idles nothing idles =>
      obtain ⟨svc, phase, processed, sent, calls, -, rfl⟩ := idles
      exact calls.chain
  | skips checked => exact scanned (checkBlock_scans checked)
  | adopts checked adopted =>
      simp only [handed, checked] at nothing
      cases nothing
  | bootSkips checked => exact scanned (checkBootstrap_scans checked)
  | bootAdopts checked adopted =>
      simp only [handed, checked] at nothing
      cases nothing
  | begins found => exact Chain.Reads.refl _
  | @waits now wait depth p made =>
      have scans : n.Scans p := makeBlock_scans made
      exact scanned scans
  | makes made adopted =>
      simp only [handed, made] at nothing
      cases nothing
  | gathers nothing later gathered =>
      obtain ⟨c, cache, phase, sent, -, -, rfl⟩ := gathered
      exact Chain.Reads.refl _
  | watches kept => exact Chain.Reads.refl _
  | triggers triggered =>
      obtain ⟨group, last, a, c, on, cache, sent, -, -, -, -, -, rfl⟩ := triggered.begun
      exact Chain.Reads.refl _
  | contributes contributed =>
      obtain ⟨c, on, out, cache, sent, phase, -, -, -, -, rfl⟩ := contributed
      exact Chain.Reads.refl _

end Handed

/-- What the process receives was built by the constructor, and its clock reads less than the
largest timestamp. -/
structure Event.Real [Platform] (e : Event) : Prop where
  genuine : ∀ tx, e.submits tx → tx.Accepted ∧ tx.Genuine
  clock : ∀ now wait depth, e = .sign now wait depth → now / second < 2 ^ 256

def Event.received : Event → Option Block
  | .bootstrapBlock _ _ sent => some sent
  | .block _ _ sent => some sent
  | _ => none

/-- The header of the last block, or the one before all of them. -/
def lastHeader (first : BlockHeader) (blocks : List Block) : BlockHeader :=
  (blocks.getLast?.map Block.header).getD first

theorem lastHeader_append (first : BlockHeader) (blocks others : List Block) :
    lastHeader first (blocks ++ others) = lastHeader (lastHeader first blocks) others := by
  cases others using List.reverseRecOn with
  | nil => simp [lastHeader]
  | append_singleton others block => simp [lastHeader, ← List.append_assoc]

section Taken

variable {S R : Type} [IPSet S] [Radix R Address] [FirstAddress S] [Platform] [Hashlib] [Bls]
  [NodeConfig] [TrieKeys S] [TrieRoot] [Poststate] [StateRoot S] [Signing] {op : Operator}
  {n m p : Node S R} {e : Event} {block : Block} {last : BlockHeader}

open NodeConfig

def Due (n : Node S R) (now : Nat) (block : Block) : Prop :=
  (∃ v, validateBlock block n.service.chain.state = .ok true v) ∧ block.header.timestamp ≤ now

/-- The service is ready for more, and the last header is the one of its head. -/
structure Placed (op : Operator) (last : BlockHeader) (n : Node S R) : Prop where
  ready : n.service.Ready
  fronted : n.service.chain.Fronted op.genesis last

omit [Radix R Address] [FirstAddress S] [Hashlib] [Bls] [NodeConfig] [TrieKeys S] [Poststate]
  [StateRoot S] [Signing] in
theorem Due.scans {now : Nat} (due : n.Due now block) (scans : n.Scans p) : p.Due now block := by
  obtain ⟨valid, timely⟩ := due
  obtain ⟨s, alike, same⟩ := scans
  refine ⟨?_, timely⟩
  rw [validateBlock_ok_iff] at valid ⊢
  rw [same]
  simp only [withState, alike.account, alike.auxvars]
  exact valid

omit [Radix R Address] [FirstAddress S] [Hashlib] [Bls] [NodeConfig] [TrieKeys S] [TrieRoot]
  [Poststate] [StateRoot S] [Signing] in
theorem Placed.scans (placed : Placed op last n) (scans : n.Scans p) : Placed op last p := by
  obtain ⟨s, alike, same⟩ := scans
  constructor
  · rw [same]
    exact placed.ready.idle alike n.service.chain.timeQueue
  · rw [same]
    exact placed.fronted.reads (Chain.reads_state alike)

omit [FirstAddress S] [Hashlib] [Bls] in
theorem made_due (placed : Placed op last n) (signs : op.Signs) (ticks : 0 < blockTime)
    {now depth wait : Nat} (clock : now / second < 2 ^ 256)
    (made : makeBlock op now depth n = .ok (some block) p) :
    p.Due (now / second + wait) block := by
  obtain ⟨head, address, key, created, svc, signerSet, found, held, late, -, -, signs', run, rfl⟩ :=
    makeBlock_some made
  obtain ⟨_, _, _, rfl⟩ := Block.sign_eq_ok signs'
  obtain ⟨⟨older, newest⟩, front⟩ := placed.fronted
  have later : ∀ parent ∈ n.service.chain.state.prevHeaders.head?,
      parent.timestamp < now / second := by
    intro parent member
    rw [newest] at member
    cases member
    rw [← front head found]
    have reached : head.timestamp + blockTime ≤ now / second :=
      (Nat.le_div_iff_mul_le (by decide)).mpr late
    exact Nat.lt_of_lt_of_le (Nat.lt_add_of_pos_right ticks) reached
  obtain ⟨-, stamped, -⟩ := placed.ready.made run later clock
  refine ⟨placed.ready.made_valid run later clock rfl rfl rfl (signs _ held), ?_⟩
  calc
    _ = now / second := stamped
    _ ≤ now / second + wait := Nat.le_add_right _ _

def Lets (op : Operator) (n : Node S R) (e : Event) : Prop :=
  ∀ block ∈ e.received, (∃ p, handed op n e = some (block, p)) → n.Due e.clock.1 block

theorem handed_due (placed : Placed op last n) (signs : op.Signs) (ticks : 0 < blockTime)
    (real : e.Real) (lets : n.Lets op e) (passed : handed op n e = some (block, p)) :
    p.Due e.clock.1 block := by
  have received (brought : e.received = some block) : p.Due e.clock.1 block :=
    (lets block brought ⟨p, passed⟩).scans (handed_scans passed)
  cases e with
  | bootstrapBlock now depth sent =>
      apply received
      have opened := passed
      simp only [handed] at opened
      split at opened
      · cases opened
        rfl
      · cases opened
  | block now depth sent =>
      apply received
      have opened := passed
      simp only [handed] at opened
      split at opened
      · cases opened
        rfl
      · cases opened
  | sign now wait depth =>
      simp only [handed] at passed
      split at passed
      · rename_i made
        cases passed
        exact made_due placed signs ticks (real.clock now wait depth rfl) made
      · cases passed
  | _ => cases passed

omit [FirstAddress S] [Hashlib] [Bls] [NodeConfig] [TrieKeys S] [StateRoot S] [Signing] in
theorem addBlock_of_due {now depth : Nat} {svc : Service S R} (sane : p.service.chain.Sane)
    (due : p.Due now block) (added : Service.addBlock now depth block p.service = .ok () svc) :
    ∃ s t q, p.service.chain.state.Alike s ∧
      applyBlock block (s, p.service.chain.patricia) = .ok () (t, q) ∧
      Chain.addBlock now depth block p.service.chain =
        .ok true (p.service.chain.extended block t q) ∧
      (p.service.chain.extended block t q).Reads svc.chain := by
  rcases Service.addBlock_cases sane.anchored added with taken | ⟨⟨c, refused⟩, -⟩
  · exact taken
  · exfalso
    cases depth with
    | zero => cases refused
    | succ depth =>
        have outcome := Chain.addBlock_outcome sane.anchored block now depth
        rw [refused] at outcome
        cases outcome with
        | refused s queue alike early => exact absurd (early due.1) (Nat.not_lt.mpr due.2)

omit [Radix R Address] [FirstAddress S] [TrieRoot] [Poststate] [StateRoot S] [Signing] in
theorem placed_start {svc : Service S R} {now : Nat} (started : start op now svc = .ok n)
    (ready : svc.Ready) (fronted : svc.chain.Fronted op.genesis last) :
    Placed op last n ∧ svc.chain.headHeader op.genesis = .ok last := by
  obtain ⟨head, key, group, d, found, -, -, -, rfl⟩ := start_ok started
  rw [fronted.2 head found] at found
  exact ⟨⟨ready, fronted⟩, found⟩

theorem Placed.taken (placed : Placed op last n) (signs : op.Signs) (ticks : 0 < blockTime)
    (real : e.Real) (lets : n.Lets op e) (handled : handle op e n = .ok () m)
    (passed : handed op n e = some (block, p)) : Node.taken op n e = [block] := by
  have due := handed_due placed signs ticks real lets passed
  obtain ⟨s, alike, same⟩ := handed_scans passed
  have sane : p.service.chain.Sane := by
    rw [same]
    exact placed.ready.sane.alike alike n.service.chain.timeQueue
  obtain ⟨_, t, q, -, -, called, -⟩ := addBlock_of_due sane due (handed_added passed handled)
  simp only [Node.taken, passed, called]

theorem Placed.step (placed : Placed op last n) (signs : op.Signs) (ticks : 0 < blockTime)
    (real : e.Real) (lets : n.Lets op e) (handled : handle op e n = .ok () m) :
    Placed op (lastHeader last (Node.taken op n e)) m := by
  have moves := handle_moves handled
  have ready := moves.lasting (Service.lasting_ready real.genuine) placed.ready
  refine ⟨ready, ?_⟩
  cases passed : handed op n e with
  | none =>
      have none : Node.taken op n e = [] := by simp only [Node.taken, passed]
      rw [none]
      exact placed.fronted.reads (moves.reads passed)
  | some given =>
      obtain ⟨block, p⟩ := given
      have due := handed_due placed signs ticks real lets passed
      obtain ⟨s, alike, same⟩ := handed_scans passed
      have sane : p.service.chain.Sane := by
        rw [same]
        exact placed.ready.sane.alike alike n.service.chain.timeQueue
      obtain ⟨_, t, q, -, applied, -, reads⟩ :=
        addBlock_of_due sane due (handed_added passed handled)
      rw [placed.taken signs ticks real lets handled passed]
      exact (Chain.fronted_extended applied).reads reads

end Taken

end Node

end IPchain
