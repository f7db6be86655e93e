import IPchain.Making
import IPchain.Moves

/-! What every event of a node keeps of its service. -/

namespace IPchain

open Lib Platform

namespace Service

section Lasting

variable {S R : Type} [IPSet S] [Radix R Address] [Platform] [TrieRoot] [Poststate]

structure Lasting (submitted : Transaction → Prop) (P : Service S R → Prop) : Prop where
  calls : ∀ {svc svc'}, P svc → Calls submitted svc svc' → P svc'
  added : ∀ {svc svc' now depth block}, P svc → addBlock now depth block svc = .ok () svc' → P svc'

theorem lasting_ready {submitted : Transaction → Prop}
    (genuine : ∀ tx, submitted tx → tx.Accepted ∧ tx.Genuine) :
    Lasting submitted (Ready : Service S R → Prop) :=
  ⟨fun ready calls => calls.ready ready genuine, fun ready added => ready.added added⟩

theorem lasting_sane (submitted : Transaction → Prop) :
    Lasting submitted fun svc : Service S R => svc.chain.Sane := by
  refine ⟨fun sane calls => calls.chain.sane sane, fun sane added => ?_⟩
  rcases addBlock_cases sane.anchored added with ⟨s, t, p, alike, applied, -, reads⟩ | ⟨-, reads⟩
  · exact reads.sane (sane.extended alike applied)
  · exact reads.sane sane

end Lasting

end Service

namespace Node

section Start

variable {S R : Type} [IPSet S] [Platform] [Hashlib] [Bls] [NodeConfig] [TrieKeys S]
  {op : Operator} {now : Nat} {svc : Service S R} {n : Node S R}

structure SetUp (head : BlockHeader) (key : Bytes) (c : Consensus) : Prop where
  random : c.currentRandomNo = encodeHex head.randomNumber
  signer : selectSigner (encodeHex head.randomNumber) head.number = .ok c.nextSigner
  current : c.groupKey = key
  previous : c.previousGroupKey = key

variable {head : BlockHeader} {key : Bytes} {c d : Consensus}

omit [Platform] [Hashlib] [NodeConfig] in
theorem SetUp.storeIds (setUp : SetUp head key c) {group : List Address}
    (stored : Consensus.storeIds group c = .ok () d) : SetUp head key d := by
  obtain ⟨settled, current⟩ := Consensus.storeIds_ok stored
  have round : d.toRound = c.toRound := congrArg Prod.fst settled
  have previous : d.previousGroupKey = c.groupKey := congrArg Prod.snd settled
  refine ⟨?_, ?_, current.trans setUp.current, previous.trans setUp.current⟩
  · rw [round]
    exact setUp.random
  · rw [round]
    exact setUp.signer

omit [Platform] [Hashlib] [NodeConfig] in
theorem SetUp.master (setUp : SetUp head key c) {keys : List (Address × Bytes)}
    {ids : List Address}
    (added : Consensus.bootstrapMasterAddSecretKeysManual keys ids c = .ok () d) :
    SetUp head key d := by
  simp only [Consensus.bootstrapMasterAddSecretKeysManual] at added
  split at added
  · cases added
  · rename_i stored
    cases added
    obtain ⟨random, signer, current, previous⟩ := setUp.storeIds stored
    exact ⟨random, signer, current, previous⟩

def Begins (head : BlockHeader) (key : Bytes) (d : Consensus) : Prop :=
  ∃ c, SetUp head key c ∧
    Consensus.Gathers (beaconMessage (encodeHex head.randomNumber) head.number 0) c d

theorem begins_createShares (setUp : SetUp head key c)
    (run : (if op.isMaster = true then do
        let _ ← Consensus.createShares (encodeHex head.randomNumber) head.number 0
      else pure () : EStateM PyExc Consensus Unit) c = .ok () d) : Begins head key d := by
  split at run
  · obtain ⟨shares, e, created, rest⟩ := bind_eq_ok.mp run
    cases rest
    obtain ⟨-, stored⟩ := Consensus.createShares_ok created
    obtain ⟨random, signer, current, previous⟩ := setUp
    exact ⟨{ c with msg := beaconMessage (encodeHex head.randomNumber) head.number 0 },
      ⟨random, signer, current, previous⟩, (Consensus.storeShares_ok stored).1⟩
  · cases run
    exact ⟨c, setUp, .idle⟩

theorem begins_storeIds (setUp : SetUp head key c) {mine : Bool} {group : List Address}
    (run : (if mine = true then
        if op.isMaster = true then do
          let _ ← Consensus.createShares (encodeHex head.randomNumber) head.number 0
        else pure ()
      else do
        Consensus.storeIds group
        if op.isMaster = true then do
          let _ ← Consensus.createShares (encodeHex head.randomNumber) head.number 0
        else pure () : EStateM PyExc Consensus Unit) c = .ok () d) : Begins head key d := by
  split at run
  · exact begins_createShares setUp run
  · obtain ⟨_, e, stored, rest⟩ := bind_eq_ok.mp run
    exact begins_createShares (setUp.storeIds stored) rest

theorem start_ok (started : start op now svc = .ok n) : ∃ head key group d,
    svc.chain.headHeader op.genesis = .ok head ∧
    svc.chain.getCurrentGroupKey op.genesis = .ok key ∧
    svc.chain.getCurrentDkgGroup op.genesis = .ok group ∧ Begins head key d ∧
    n = {
      service := svc
      consensus := d
      cache := ShareCache.init now
      phase := .bootstrap
      count := 0
      processed := 0
      dkgOn := false
      exitFromDkg := false
      timestamp := head.timestamp
      blockNum := head.number
      lastRandomNo := encodeHex head.randomNumber
      inDkgGroup := (findMeInDkgGroup group op.addresses).1
      myDkgIds := (findMeInDkgGroup group op.addresses).2
      createShares := op.isMaster
      signingAddr := none
      signerSet := false
      fromBootstrap := false
      sent := [] } := by
  obtain ⟨head, found, rest⟩ := except_bind_eq_ok.mp started
  obtain ⟨key, known, rest⟩ := except_bind_eq_ok.mp rest
  obtain ⟨group, grouped, rest⟩ := except_bind_eq_ok.mp rest
  simp only at rest
  obtain ⟨c, init, rest⟩ := except_bind_eq_ok.mp rest
  obtain ⟨signer, selected, made⟩ := except_bind_eq_ok.mp init
  cases made
  split at rest
  · cases rest
  · rename_i d setUp
    cases rest
    refine ⟨head, key, group, d, found, known, grouped, ?_, rfl⟩
    obtain ⟨genesis, keys, masterKeys⟩ := op
    cases masterKeys with
    | none => exact begins_storeIds ⟨rfl, selected, rfl, rfl⟩ setUp
    | some masterKeys =>
        obtain ⟨_, e, added, rest⟩ := bind_eq_ok.mp setUp
        exact begins_storeIds (SetUp.master ⟨rfl, selected, rfl, rfl⟩ added) rest

end Start

section Checks

variable {S R : Type} [IPSet S] {n m : Node S R}

def Scans (n m : Node S R) : Prop :=
  ∃ s, n.service.chain.state.Alike s ∧ m.service = (n.withState s).service

variable [FirstAddress S] {block : Block} {x : Option IPAddress} {p : Node S R} {s : State S}

theorem Passed.scans (passed : Passed block n x p) (alike : p.service.chain.state.Alike s) :
    n.Scans (p.withState s) := by
  cases passed with
  | left mine out key drawn first => exact ⟨s, first.trans alike, rfl⟩
  | renewed stays on drawn first => exact ⟨s, first.trans alike, rfl⟩
  | normal stays off => exact ⟨s, alike, rfl⟩

variable [Platform] [Hashlib]

theorem Drawn.scans [NodeConfig] [TrieKeys S] {op : Operator} (drawn : Drawn op block n x p)
    (alike : p.service.chain.state.Alike s) : n.Scans (p.withState s) := by
  cases drawn with
  | renewed number known drawn first => exact ⟨s, first.trans alike, rfl⟩
  | normal number => exact ⟨s, alike, rfl⟩

variable [Bls]

theorem checkBlock_scans [Radix R Address] {b : Bool} (checked : checkBlock block n = .ok b m) :
    n.Scans m := by
  cases b with
  | true =>
      obtain ⟨-, x, p, s, passed, -, alike, rfl⟩ := checkBlock_true checked
      exact passed.scans alike
  | false =>
      rcases checkBlock_false checked with ⟨-, rfl⟩ | ⟨-, x, p, s, passed, -, alike, rfl⟩
      · exact ⟨_, State.Alike.refl _, rfl⟩
      · exact passed.scans alike

variable [NodeConfig]

theorem checkBootstrap_scans [Radix R Address] [TrieKeys S] {op : Operator} {b : Bool}
    (checked : checkBootstrap op block n = .ok b m) : n.Scans m := by
  cases b with
  | true =>
      obtain ⟨-, -, x, p, s, drawn, -, alike, rfl⟩ := checkBootstrap_true checked
      exact drawn.scans alike
  | false =>
      rcases checkBootstrap_false checked with ⟨rfl, -, -⟩ | ⟨x, p, s, drawn, -, alike, rfl⟩
      · exact ⟨_, State.Alike.refl _, rfl⟩
      · exact drawn.scans alike

omit [FirstAddress S] in
theorem newRound_service {now : Nat} (begun : newRound now n = .ok () m) :
    m.service = n.service := by
  rcases newRound_ok begun with ⟨-, rfl⟩ | ⟨-, shares, c, -, rfl⟩
  · rfl
  · rfl

end Checks

section Moves

variable {S R : Type} [IPSet S] [Radix R Address] [FirstAddress S] [Platform] [Hashlib] [Bls]
  [NodeConfig] [TrieKeys S] [TrieRoot] [Poststate] [StateRoot S] [Signing] {op : Operator}
  {n m : Node S R} {e : Event} {P : Service S R → Prop}

omit [FirstAddress S] [Hashlib] [Bls] in
theorem makeBlock_scans {now depth : Nat} {made : Option Block}
    (done : makeBlock op now depth n = .ok made m) : n.Scans m := by
  cases made with
  | none =>
      obtain ⟨head, signerSet, signingAddr, -, -, rfl⟩ := makeBlock_none done
      exact ⟨_, State.Alike.refl _, rfl⟩
  | some block =>
      obtain ⟨head, address, key, made, svc, signerSet, -, -, -, -, -, -, created, rfl⟩ :=
        makeBlock_some done
      obtain ⟨a, group, randomNumber, -, -, -, -, rfl⟩ := Service.createBlock_eq_ok.mp created
      exact ⟨_, Service.alike_scanned n.service, rfl⟩

theorem Moves.lasting (moves : Moves op n e m) (lasting : Service.Lasting e.submits P)
    (holds : P n.service) : P m.service := by
  have scanned {p : Node S R} (scans : n.Scans p) : P p.service := by
    obtain ⟨s, alike, same⟩ := scans
    rw [same]
    exact lasting.calls holds (.reads alike)
  cases moves with
  | idles nothing idles =>
      obtain ⟨svc, phase, processed, sent, calls, -, rfl⟩ := idles
      exact lasting.calls holds calls
  | skips checked => exact scanned (checkBlock_scans checked)
  | adopts checked adopted =>
      obtain ⟨svc, head, signer, added, -, -, begun⟩ := adoptBlock_ok adopted
      rw [newRound_service begun]
      exact lasting.added (scanned (checkBlock_scans checked)) added
  | bootSkips checked => exact scanned (checkBootstrap_scans checked)
  | bootAdopts checked adopted =>
      obtain ⟨svc, signer, added, -, rfl⟩ := adoptBootstrap_ok adopted
      exact lasting.added (scanned (checkBootstrap_scans checked)) added
  | begins found => exact holds
  | @waits now wait depth p made =>
      have scans : n.Scans p := makeBlock_scans made
      exact scanned scans
  | @makes now wait depth block p m made adopted =>
      obtain ⟨svc, signer, added, -, begun⟩ := adoptOwn_ok adopted
      have round : m.service = svc := newRound_service begun
      have adopted : P svc := lasting.added (scanned (makeBlock_scans made)) added
      exact round ▸ adopted
  | gathers nothing later gathered =>
      obtain ⟨c, cache, phase, sent, -, -, rfl⟩ := gathered
      exact holds
  | watches kept => exact holds
  | triggers triggered =>
      obtain ⟨group, last, a, c, on, cache, sent, -, -, -, -, -, rfl⟩ := triggered.begun
      exact holds
  | contributes contributed =>
      obtain ⟨c, on, out, cache, sent, phase, -, -, -, -, rfl⟩ := contributed
      exact holds

theorem Run.sane {svc : Service S R} {meets : Node S R → Event → Prop} {blocks : List Block}
    (sane : svc.chain.Sane) (run : Run op svc meets blocks n) : n.service.chain.Sane := by
  induction run with
  | start started =>
      obtain ⟨head, key, group, d, -, -, -, -, rfl⟩ := start_ok started
      exact sane
  | step run e turn met handled ih =>
      exact (handle_moves handled).lasting (Service.lasting_sane _) ih

end Moves

end Node

end IPchain
