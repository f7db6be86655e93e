import IPchain.Node
import IPchain.Production

/-! What the checks of a received block do to a node. -/

namespace IPchain

open Lib Platform

namespace Node

section Parts

variable {S R : Type} [IPSet S] {α : Type} {n m : Node S R} {a : α} {e : PyExc}

theorem onService_eq_ok {x : EStateM PyExc (Service S R) α} :
    onService x n = .ok a m ↔ ∃ svc, x n.service = .ok a svc ∧ m = { n with service := svc } := by
  simp only [onService]
  cases x n.service with
  | ok b svc => simp [eq_comm]
  | error e svc => simp

theorem onService_eq_error {x : EStateM PyExc (Service S R) α} :
    onService x n = .error e m ↔
      ∃ svc, x n.service = .error e svc ∧ m = { n with service := svc } := by
  simp only [onService]
  cases x n.service with
  | ok b svc => simp
  | error e' svc => simp [eq_comm]

theorem onConsensus_eq_ok {x : EStateM PyExc Consensus α} :
    onConsensus x n = .ok a m ↔ ∃ c, x n.consensus = .ok a c ∧ m = { n with consensus := c } := by
  simp only [onConsensus]
  cases x n.consensus with
  | ok b c => simp [eq_comm]
  | error e c => simp

theorem asks_eq_ok {f : Chain S R → Except PyExc α} :
    asks f n = .ok a m ↔ f n.service.chain = .ok a ∧ m = n := by
  simp only [asks]
  cases f n.service.chain with
  | ok b => simp [eq_comm]
  | error e => simp

theorem asks_eq_error {f : Chain S R → Except PyExc α} :
    asks f n = .error e m ↔ f n.service.chain = .error e ∧ m = n := by
  simp only [asks]
  cases f n.service.chain with
  | ok b => simp
  | error e' => simp [eq_comm]

theorem asks_bind_eq_ok {β : Type} {f : Chain S R → Except PyExc α}
    {x : α → EStateM PyExc (Node S R) β} {b : β} :
    (asks f >>= x) n = .ok b m ↔ ∃ a, f n.service.chain = .ok a ∧ x a n = .ok b m := by
  rw [bind_eq_ok]
  simp only [asks_eq_ok]
  constructor
  · rintro ⟨a, _, ⟨found, rfl⟩, rest⟩
    exact ⟨a, found, rest⟩
  · rintro ⟨a, found, rest⟩
    exact ⟨a, n, ⟨found, rfl⟩, rest⟩

theorem update_bind {β : Type} (f : Node S R → Node S R) (x : Unit → EStateM PyExc (Node S R) β)
    (n : Node S R) : (update f >>= x) n = x () (f n) := rfl

end Parts

section Reading

variable {S R : Type} [IPSet S]

def withState (n : Node S R) (s : State S) : Node S R :=
  { n with service := { n.service with chain := { n.service.chain with state := s } } }

variable [FirstAddress S]

def firstOf (n : Node S R) (a : Address) : Option IPAddress :=
  FirstAddress.first (n.service.chain.state.account a).balance.ownIps

theorem extractFirstIpFromAddress_run (a : Address) (n : Node S R) :
    ∃ s, n.service.chain.state.Alike s ∧
      extractFirstIpFromAddress a n = .ok (n.firstOf a) (n.withState s) := by
  refine ⟨_, n.service.chain.state.alike_read a, ?_⟩
  rw [firstOf, ← State.getBalance_fst]
  rfl

theorem drawn_ok {drawn : Option Address} {n m : Node S R} {e : PyExc} {x : Option IPAddress}
    (run : (match drawn with
      | none => raised e
      | some a => extractFirstIpFromAddress a : EStateM PyExc (Node S R) _) n = .ok x m) :
    ∃ a s, drawn = some a ∧ n.service.chain.state.Alike s ∧ x = n.firstOf a ∧
      m = n.withState s := by
  cases drawn with
  | none => cases run
  | some a =>
      obtain ⟨s, alike, first⟩ := extractFirstIpFromAddress_run a n
      cases first.symm.trans run
      exact ⟨a, s, rfl, alike, rfl, rfl⟩

theorem drawn_error {drawn : Option Address} {n m : Node S R} {e e' : PyExc}
    (run : (match drawn with
      | none => raised e
      | some a => extractFirstIpFromAddress a : EStateM PyExc (Node S R) _) n = .error e' m) :
    e' = e := by
  cases drawn with
  | none =>
      cases run
      rfl
  | some a =>
      obtain ⟨s, -, first⟩ := extractFirstIpFromAddress_run a n
      cases first.symm.trans run

variable [Radix R Address] [Platform]

omit [FirstAddress S] in
/-- The tree knows the address, and the account that signed the block owns it. -/
def Vouched (c : Chain S R) (block : Block) (x : IPAddress) : Prop :=
  (∃ owner, c.getAddrFromIp x = .ok owner) ∧ ∃ signer, block.signer = .ok signer ∧
    (c.state.account signer).balance.inOwnIps (IPNetwork.ofAddress x) = true

omit [FirstAddress S] in
theorem alike_verifyBlockSignature (block : Block) (x : IPAddress) (s : State S) :
    s.Alike (finish (verifyBlockSignature block x s)) := by
  cases signed : block.signer with
  | ok signer =>
      rw [verifyBlockSignature_run signed]
      split
      · exact s.alike_read signer
      · exact s.alike_read signer
  | error e =>
      simp only [verifyBlockSignature, signed]
      split
      · exact State.Alike.refl s
      · exact State.Alike.refl s

variable {n m : Node S R} {block : Block} {signer : Option IPAddress}

omit [FirstAddress S] in
theorem verifySigner_ok {b : Bool} (verified : verifySigner block signer n = .ok b m) :
    b = true ∧ ∃ x s, signer = some x ∧ Vouched n.service.chain block x ∧
      n.service.chain.state.Alike s ∧ m = n.withState s := by
  cases signer with
  | none => cases verified
  | some x =>
      obtain ⟨owner, known, rest⟩ := asks_bind_eq_ok.mp verified
      obtain ⟨svc, run, rfl⟩ := onService_eq_ok.mp rest
      obtain ⟨s, checked, rfl⟩ := Service.onState_eq_ok.mp run
      have alike := alike_verifyBlockSignature block x n.service.chain.state
      rw [checked] at alike
      cases signed : block.signer with
      | error e =>
          simp only [verifyBlockSignature, signed] at checked
          split at checked <;> cases checked
      | ok a =>
          rw [verifyBlockSignature_run signed] at checked
          split at checked
          · rename_i holds
            cases checked
            rw [State.getBalance_fst] at holds
            exact ⟨rfl, x, _, rfl, ⟨⟨owner, known⟩, a, signed, holds⟩, alike, rfl⟩
          · cases checked

omit [FirstAddress S] in
theorem verifySigner_of_vouched {x : IPAddress} (vouched : Vouched n.service.chain block x) :
    ∃ s, n.service.chain.state.Alike s ∧
      verifySigner block (some x) n = .ok true (n.withState s) := by
  obtain ⟨⟨owner, known⟩, a, signed, holds⟩ := vouched
  rw [← State.getBalance_fst] at holds
  have run := verifyBlockSignature_run signed x n.service.chain.state
  rw [if_pos holds] at run
  refine ⟨_, n.service.chain.state.alike_read a, asks_bind_eq_ok.mpr ⟨owner, known, ?_⟩⟩
  exact onService_eq_ok.mpr ⟨_, Service.onState_eq_ok.mpr ⟨_, run, rfl⟩, rfl⟩

omit [FirstAddress S] in
theorem verifySigner_error {e : PyExc} (failed : verifySigner block signer n = .error e m) :
    (∃ s, n.service.chain.state.Alike s ∧ m = n.withState s) ∧
      ∀ x, signer = some x → ¬ Vouched n.service.chain block x := by
  constructor
  · cases signer with
    | none =>
        cases failed
        exact ⟨_, State.Alike.refl _, rfl⟩
    | some x =>
        rcases bind_eq_error.mp failed with unknown | ⟨owner, p, known, rest⟩
        · obtain ⟨-, rfl⟩ := asks_eq_error.mp unknown
          exact ⟨_, State.Alike.refl _, rfl⟩
        · obtain ⟨-, rfl⟩ := asks_eq_ok.mp known
          obtain ⟨svc, run, rfl⟩ := onService_eq_error.mp rest
          obtain ⟨s, checked, rfl⟩ := Service.onState_eq_error.mp run
          have alike := alike_verifyBlockSignature block x p.service.chain.state
          rw [checked] at alike
          exact ⟨s, alike, rfl⟩
  · rintro x rfl vouched
    obtain ⟨s, -, verified⟩ := verifySigner_of_vouched vouched
    rw [failed] at verified
    cases verified

omit [FirstAddress S] in
theorem Vouched.alike {c : Chain S R} {x : IPAddress} (vouched : Vouched c block x) {s : State S}
    (alike : c.state.Alike s) : Vouched { c with state := s } block x := by
  obtain ⟨known, a, signed, holds⟩ := vouched
  refine ⟨known, a, signed, ?_⟩
  rw [alike.account]
  exact holds

end Reading

section Loop

variable {S R : Type} [IPSet S] [Radix R Address] [FirstAddress S] [Platform] [Hashlib] [Bls]
  {n m : Node S R} {block : Block}

/-- The group signature of the block, under the key that the loop takes for it. -/
def verifies (n : Node S R) (block : Block) : Bool :=
  n.consensus.verifyGroupSig (beaconMessage n.lastRandomNo n.blockNum n.count)
    block.header.groupSig (n.exitFromDkg || n.dkgOn)

/-- The ways past the group signature: out of a key generation, at the end of one that others
made, and in between. -/
inductive Passed (block : Block) (n : Node S R) : Option IPAddress → Node S R → Prop
  | left {a : Address} {s : State S} (mine : n.inDkgGroup = true) (out : n.exitFromDkg = true)
      (key : block.header.groupPubkey = n.consensus.groupKey) (drawn : n.signingAddr = some a)
      (alike : n.service.chain.state.Alike s) :
      Passed block n (n.firstOf a)
        { n.withState s with signerSet := true, exitFromDkg := false }
  | renewed {a : Address} {s : State S} (stays : (n.inDkgGroup && n.exitFromDkg) = false)
      (on : n.dkgOn = true) (drawn : n.signingAddr = some a)
      (alike : n.service.chain.state.Alike s) :
      Passed block n (n.firstOf a)
        { n.withState s with
          signerSet := true
          consensus := { n.consensus with groupKey := block.header.groupPubkey }
          dkgOn := false }
  | normal (stays : (n.inDkgGroup && n.exitFromDkg) = false) (off : n.dkgOn = false) :
      Passed block n (some n.consensus.nextSigner) { n with signerSet := true }

omit [Radix R Address] [Platform] in
theorem expectedSigner_ok {signer : Option IPAddress}
    (expected : expectedSigner block n = .ok signer m) :
    n.verifies block = true ∧ Passed block n signer m := by
  simp only [expectedSigner] at expected
  split at expected
  · cases expected
  · rename_i verified
    refine ⟨by simpa only [verifies, Bool.not_eq_false] using verified, ?_⟩
    split at expected
    · rename_i leaves
      rw [Bool.and_eq_true] at leaves
      split at expected
      · cases expected
      · rename_i key
        obtain ⟨a, s, drawn, alike, rfl, rfl⟩ := drawn_ok expected
        exact .left leaves.1 leaves.2 (not_not.mp key) drawn alike
    · rename_i stays
      split at expected
      · rename_i on
        obtain ⟨_, p, first, rest⟩ := bind_eq_ok.mp expected
        obtain ⟨a, s, drawn, alike, rfl, rfl⟩ := drawn_ok first
        cases rest
        exact .renewed (by simpa using stays) on drawn alike
      · rename_i off
        cases expected
        exact .normal (by simpa using stays) (by simpa using off)

omit [Radix R Address] [Platform] in
theorem expectedSigner_skip {e : PyExc} (failed : expectedSigner block n = .error e m)
    (skips : (wrongSigner e || e.isInstance .blsInvalidGroupSignature) = true) :
    n.verifies block = false ∧ m = { n with signerSet := true } := by
  simp only [expectedSigner] at failed
  split at failed
  · rename_i refused
    cases failed
    exact ⟨refused, rfl⟩
  · exfalso
    split at failed
    · split at failed
      · cases failed
        exact absurd skips (by decide)
      · rw [drawn_error failed] at skips
        exact absurd skips (by decide)
    · split at failed
      · rcases bind_eq_error.mp failed with failed | ⟨_, p, -, rest⟩
        · rw [drawn_error failed] at skips
          exact absurd skips (by decide)
        · cases rest
      · cases failed

theorem checkBlock_true (checked : checkBlock block n = .ok true m) :
    n.verifies block = true ∧ ∃ x p s, Passed block n (some x) p ∧
      Vouched p.service.chain block x ∧ p.service.chain.state.Alike s ∧ m = p.withState s := by
  simp only [checkBlock, orSkip] at checked
  split at checked
  · rename_i b p run
    cases checked
    obtain ⟨signer, p, expected, verified⟩ := bind_eq_ok.mp run
    obtain ⟨verifies, passed⟩ := expectedSigner_ok expected
    obtain ⟨-, x, s, rfl, vouched, alike, rfl⟩ := verifySigner_ok verified
    exact ⟨verifies, x, p, s, passed, vouched, alike, rfl⟩
  · split at checked <;> cases checked

theorem checkBlock_false (checked : checkBlock block n = .ok false m) :
    (n.verifies block = false ∧ m = { n with signerSet := true }) ∨
      (n.verifies block = true ∧ ∃ signer p s, Passed block n signer p ∧
        (∀ x, signer = some x → ¬ Vouched p.service.chain block x) ∧
        p.service.chain.state.Alike s ∧ m = p.withState s) := by
  simp only [checkBlock, orSkip] at checked
  split at checked
  · rename_i b p run
    cases checked
    obtain ⟨signer, p, -, verified⟩ := bind_eq_ok.mp run
    cases (verifySigner_ok verified).1
  · rename_i e p run
    split at checked
    · rename_i skips
      cases checked
      rcases bind_eq_error.mp run with failed | ⟨signer, p, expected, failed⟩
      · exact Or.inl (expectedSigner_skip failed skips)
      · obtain ⟨verifies, passed⟩ := expectedSigner_ok expected
        obtain ⟨⟨s, alike, rfl⟩, refused⟩ := verifySigner_error failed
        exact Or.inr ⟨verifies, signer, p, s, passed, refused, alike, rfl⟩
    · cases checked

end Loop

section Bootstrap

variable {S R : Type} [IPSet S] [Radix R Address] [FirstAddress S] [Platform] [Hashlib] [Bls]
  [NodeConfig] [TrieKeys S] {op : Operator} {n m : Node S R} {block : Block}

/-- The group signature of the block, under the key that the bootstrap takes for it. -/
def bootVerifies (n : Node S R) (block : Block) : Bool :=
  n.consensus.verifyGroupSig (beaconMessage n.lastRandomNo n.blockNum n.count)
    block.header.groupSig (renews block.header.number)

/-- The node that holds the account of the next block, when the group renews its key and when it
does not. -/
inductive Drawn (op : Operator) (block : Block) (n : Node S R) :
    Option IPAddress → Node S R → Prop
  | renewed {group : List Address} {a : Address} {s : State S}
      (number : renews block.header.number = true)
      (known : n.service.chain.getCurrentDkgGroup op.genesis = .ok group)
      (drawn : dkgSigner n.lastRandomNo group = .ok a) (alike : n.service.chain.state.Alike s) :
      Drawn op block n (n.firstOf a)
        { n.withState s with
          consensus := { n.consensus with groupKey := block.header.groupPubkey } }
  | normal (number : renews block.header.number = false) :
      Drawn op block n (some n.consensus.nextSigner) n

omit [Radix R Address] [Bls] in
theorem bootstrapSigner_ok {signer : Option IPAddress}
    (found : bootstrapSigner op block n = .ok signer m) : Drawn op block n signer m := by
  simp only [bootstrapSigner] at found
  split at found
  · rename_i number
    obtain ⟨group, known, rest⟩ := asks_bind_eq_ok.mp found
    obtain ⟨a, drawn, rest⟩ := lift_bind_eq_ok.mp rest
    obtain ⟨x, p, first, rest⟩ := bind_eq_ok.mp rest
    obtain ⟨s, alike, run⟩ := extractFirstIpFromAddress_run a n
    rw [run] at first
    cases first
    cases rest
    exact .renewed number known drawn alike
  · rename_i number
    cases found
    exact .normal (by simpa using number)

omit [Radix R Address] [Bls] in
theorem bootstrapSigner_error {e : PyExc} (failed : bootstrapSigner op block n = .error e m) :
    m = n ∧ renews block.header.number = true ∧
      ∀ group a, n.service.chain.getCurrentDkgGroup op.genesis = .ok group →
        dkgSigner n.lastRandomNo group ≠ .ok a := by
  simp only [bootstrapSigner] at failed
  split at failed
  · rename_i number
    rcases bind_eq_error.mp failed with unknown | ⟨group, p, known, rest⟩
    · obtain ⟨unknown, rfl⟩ := asks_eq_error.mp unknown
      refine ⟨rfl, number, fun group a known => ?_⟩
      rw [known] at unknown
      cases unknown
    · obtain ⟨known, rfl⟩ := asks_eq_ok.mp known
      rcases lift_bind_eq_error.mp rest with ⟨undrawn, rfl⟩ | ⟨a, drawn, rest⟩
      · refine ⟨rfl, number, fun group' a known' => ?_⟩
        rw [known] at known'
        cases known'
        rw [undrawn]
        exact fun same => nomatch same
      · obtain ⟨s, -, run⟩ := extractFirstIpFromAddress_run a p
        rcases bind_eq_error.mp rest with first | ⟨x, q, -, rest⟩
        · rw [run] at first
          cases first
        · cases rest
  · cases failed

omit [Radix R Address] in
theorem Drawn.bootVerifies {signer : Option IPAddress} (drawn : Drawn op block n signer m) :
    m.bootVerifies block = n.bootVerifies block := by
  cases drawn with
  | renewed number known drawn alike =>
      simp only [Node.bootVerifies, number]
      rfl
  | normal number => rfl

theorem checkBootstrap_true (checked : checkBootstrap op block n = .ok true m) :
    n.bootVerifies block = true ∧
      encodeHex block.header.randomNumber = hexdigest block.header.groupSig ∧
      ∃ x p s, Drawn op block n (some x) p ∧ Vouched p.service.chain block x ∧
        p.service.chain.state.Alike s ∧ m = p.withState s := by
  simp only [checkBootstrap, orSkip] at checked
  split at checked
  · rename_i b p run
    cases checked
    obtain ⟨signer, p, found, rest⟩ := bind_eq_ok.mp run
    have drawn := bootstrapSigner_ok found
    split at rest
    · cases rest
    · rename_i verified
      split at rest
      · cases rest
      · rename_i hashed
        obtain ⟨-, x, s, rfl, vouched, alike, rfl⟩ := verifySigner_ok rest
        refine ⟨?_, not_not.mp hashed, x, p, s, drawn, vouched, alike, rfl⟩
        rw [← drawn.bootVerifies]
        exact (Bool.not_eq_false _).mp verified
  · split at checked <;> cases checked

theorem checkBootstrap_false (checked : checkBootstrap op block n = .ok false m) :
    (m = n ∧ renews block.header.number = true ∧
      ∀ group a, n.service.chain.getCurrentDkgGroup op.genesis = .ok group →
        dkgSigner n.lastRandomNo group ≠ .ok a) ∨
      ∃ signer p s, Drawn op block n signer p ∧
        (∀ x, signer = some x → ¬ Vouched p.service.chain block x) ∧
        p.service.chain.state.Alike s ∧ m = p.withState s := by
  simp only [checkBootstrap, orSkip] at checked
  split at checked
  · rename_i b p run
    cases checked
    obtain ⟨signer, p, -, rest⟩ := bind_eq_ok.mp run
    split at rest
    · cases rest
    · split at rest
      · cases rest
      · cases (verifySigner_ok rest).1
  · rename_i e p run
    split at checked
    · rename_i skips
      cases checked
      rcases bind_eq_error.mp run with failed | ⟨signer, p, found, rest⟩
      · exact Or.inl (bootstrapSigner_error failed)
      · split at rest
        · cases rest
          exact absurd skips (by decide)
        · split at rest
          · cases rest
            exact absurd skips (by decide)
          · obtain ⟨⟨s, alike, rfl⟩, refused⟩ := verifySigner_error rest
            exact Or.inr ⟨signer, p, s, bootstrapSigner_ok found, refused, alike, rfl⟩
    · cases checked

end Bootstrap

end Node

end IPchain
