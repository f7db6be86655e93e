import IPchain.Expectation
import IPchain.Upkeep

/-! Chains that have accepted the same blocks. What was refused in between, read, or left to
wait makes no difference to what they hold and to what they do next. -/

namespace IPchain

open Lib

section Alike

variable {S R : Type} [IPSet S] [Radix R Address] [Platform] [TrieRoot] {s v t : State S}
  {p q : R} {block : Block} {e : PyExc}

omit [Radix R Address] in
theorem basicValidation_alike (alike : s.Alike v) (failed : basicValidation block s = .error e t) :
    basicValidation block v = .error e v := by
  simp only [basicValidation, lift_eq_error] at failed ⊢
  rw [alike.auxvars]
  exact ⟨failed.1, trivial⟩

omit [Radix R Address] in
theorem processBlock_alike (alike : s.Alike v) (failed : processBlock block s = .error e t) :
    ∃ t', processBlock block v = .error e t' := by
  rcases processBlock_eq_error.mp failed with refused | ⟨based, raises⟩
  · exact ⟨v, processBlock_eq_error.mpr (Or.inl (basicValidation_alike alike refused))⟩
  · have ledger := (simulates_applyTransactions _ _).error raises
    rw [← alike.account] at ledger
    rcases (simulates_applyTransactions _ _).exists_error ledger with ⟨t', raises', -⟩
    rw [← alike.auxvars] at based
    exact ⟨t', processBlock_eq_error.mpr (Or.inr ⟨based, raises'⟩)⟩

theorem applyBlock_error_alike (quiet : s.journal = []) (alike : s.Alike v)
    (raises : applyBlock block (s, p) = .error e (t, q)) :
    ∃ r, applyBlock block (v, p) = .error e r := by
  have reverts (u w : State S) (quiet : u.journal = []) :
      ∃ x, State.revert u.snapshot w = .ok () x := by
    rcases State.revert_snapshot u w quiet with ⟨x, reverted, -⟩
    exact ⟨x, reverted⟩
  cases processed : processBlock block s with
  | ok cached u =>
      simp only [applyBlock, processed] at raises
      cases raises
  | error e' u =>
      rcases processBlock_alike alike processed with ⟨u', processed'⟩
      rcases reverts s u quiet with ⟨x, reverted⟩
      rcases reverts v u' (alike.journal.trans quiet) with ⟨x', reverted'⟩
      simp only [applyBlock, processed, reverted] at raises
      simp only [applyBlock, processed', reverted']
      by_cases caught : e'.caught = true
      · rw [if_pos caught] at raises ⊢
        cases raises
        exact ⟨_, rfl⟩
      · rw [if_neg caught] at raises ⊢
        cases raises
        exact ⟨_, rfl⟩

end Alike

namespace Chain

section Replicas

variable {S R : Type} [IPSet S] [Radix R Address] [Platform] {c c' d d' : Chain S R}
  {block : Block} {blocks : List Block} {now now' depth depth' : Nat} {e : PyExc}

omit [Radix R Address] [Platform] in
theorem Reads.symm (reads : c.Reads d) : d.Reads c := by
  rcases reads with ⟨s, queue, alike, rfl⟩
  exact ⟨c.state, c.timeQueue, alike.symm, rfl⟩

variable [TrieRoot] [Poststate]

theorem Reads.takes (reads : c.Reads d) (sane : c.Sane)
    (added : addBlock now depth block c = .ok true c') (due : block.header.timestamp ≤ now')
    (depth' : Nat) :
    ∃ d', addBlock now' (depth' + 1) block d = .ok true d' ∧ c'.Reads d' := by
  have taken : (⟨c, []⟩ : Service S R).Takes block now := Service.takes_of_added added
  rcases taken.1 with ⟨v, validated⟩
  rcases sane.anchored.added added with ⟨s, t, p, alike, applied, rfl⟩
  have other := reads.sane sane
  rcases reads with ⟨w, queue, alike', rfl⟩
  have validated' : ∃ v', validateBlock block w = .ok true v' := by
    apply validateBlock_ok_iff.mpr
    have valid := validateBlock_ok_iff.mp ⟨v, validated⟩
    rw [alike'.account, alike'.auxvars]
    exact valid
  rcases validated' with ⟨v', validated'⟩
  have quiet : s.journal = [] := alike.journal.trans sane.quiet
  rcases applyBlock_alike quiet (alike.symm.trans alike') applied with ⟨t', applied', same⟩
  rcases other.accepts validated' applied' due depth' with ⟨t'', added', same'⟩
  have alike'' := same.trans same'
  refine ⟨_, added', ⟨{ t'' with blockNumber := block.header.number }, queue, ?_, rfl⟩⟩
  exact ⟨alike''.account, alike''.trie,
    congrArg (fun aux : AuxVars => { aux with blockNumber := block.header.number })
      alike''.auxvars, alike''.journal⟩

theorem valid_of_failed (failed : addBlock now (depth + 1) block c = .error e c') :
    (∃ v, validateBlock block c.state = .ok true v) ∧ block.header.timestamp ≤ now := by
  simp only [addBlock] at failed
  cases validated : validateBlock block c.state with
  | error e s =>
      rw [validated] at failed
      cases failed
  | ok b s =>
      cases validateBlock_returns validated
      rw [validated] at failed
      by_cases early : now < block.header.timestamp
      · simp only [if_pos early] at failed
        cases failed
      · exact ⟨⟨s, rfl⟩, Nat.not_lt.mp early⟩

omit [Radix R Address] [Poststate] in
theorem Reads.valid (reads : c.Reads d) (valid : ∃ v, validateBlock block c.state = .ok true v) :
    ∃ v, validateBlock block d.state = .ok true v := by
  rcases reads with ⟨s, queue, alike, rfl⟩
  apply validateBlock_ok_iff.mpr
  rw [alike.account, alike.auxvars]
  exact validateBlock_ok_iff.mp valid

theorem Reads.raises (reads : c.Reads d) (sane : c.Sane)
    (failed : addBlock now (depth + 1) block c = .error e c')
    (due' : block.header.timestamp ≤ now') (depth' : Nat) :
    ∃ d', addBlock now' (depth' + 1) block d = .error e d' := by
  rcases valid_of_failed failed with ⟨valid, due⟩
  have outcome := addBlock_outcome sane.anchored block now depth
  have other := addBlock_outcome (reads.sane sane).anchored block now' depth'
  rw [failed] at outcome
  cases called : addBlock now' (depth' + 1) block d with
  | ok b d' =>
      rw [called] at other
      cases other with
      | refused s queue alike early =>
          exact absurd (early (reads.valid valid)) (Nat.not_lt.mpr due')
      | added s alike applied =>
          rcases reads.symm.takes (reads.sane sane) called due depth with ⟨c'', added, -⟩
          rw [failed] at added
          cases added
  | error e' d' =>
      rw [called] at other
      cases outcome with
      | failed s alike raises =>
          cases other with
          | failed s' alike' raises' =>
              rcases reads with ⟨w, queue, between, rfl⟩
              have quiet : s.journal = [] := alike.journal.trans sane.quiet
              rcases applyBlock_error_alike quiet ((alike.symm.trans between).trans alike') raises
                with ⟨r, same⟩
              rw [raises'] at same
              cases same
              exact ⟨_, rfl⟩

inductive Answers : EStateM.Result PyExc (Chain S R) Bool →
    EStateM.Result PyExc (Chain S R) Bool → Prop
  | returns {c d : Chain S R} (b : Bool) (reads : c.Reads d) : Answers (.ok b c) (.ok b d)
  | fails {c d : Chain S R} (e : PyExc) : Answers (.error e c) (.error e d)

theorem Reads.addBlock (reads : c.Reads d) (sane : c.Sane)
    (due : block.header.timestamp ≤ now) (due' : block.header.timestamp ≤ now') :
    Answers (addBlock now (depth + 1) block c) (addBlock now' (depth' + 1) block d) := by
  cases called : Chain.addBlock now (depth + 1) block c with
  | error e c' =>
      rcases reads.raises sane called due' depth' with ⟨d', failed⟩
      rw [failed]
      exact .fails e
  | ok b c' =>
      cases b with
      | true =>
          rcases reads.takes sane called due' depth' with ⟨d', added, reads'⟩
          rw [added]
          exact .returns true reads'
      | false =>
          cases called' : Chain.addBlock now' (depth' + 1) block d with
          | error e d' =>
              rcases reads.symm.raises (reads.sane sane) called' due depth with ⟨c'', failed⟩
              rw [called] at failed
              cases failed
          | ok b' d' =>
              cases b' with
              | true =>
                  rcases reads.symm.takes (reads.sane sane) called' due depth with ⟨c'', added, -⟩
                  rw [called] at added
                  cases added
              | false =>
                  rcases sane.anchored.refused called with ⟨s, queue, alike, rfl⟩
                  rcases (reads.sane sane).anchored.refused called' with ⟨s', queue', alike', rfl⟩
                  have before : c.Reads { c with state := s, timeQueue := queue } :=
                    ⟨s, queue, alike, rfl⟩
                  exact .returns false (before.symm.trans (reads.trans ⟨s', queue', alike', rfl⟩))

def take (c : Chain S R) (block : Block) : Option (Chain S R) :=
  match Chain.addBlock block.header.timestamp 1 block c with
  | .ok true c' => some c'
  | _ => none

def grow (blocks : List Block) (c : Chain S R) : Option (Chain S R) := blocks.foldlM take c

theorem take_eq_some :
    c.take block = some c' ↔ Chain.addBlock block.header.timestamp 1 block c = .ok true c' := by
  simp only [take]
  constructor
  · intro taken
    split at taken
    · cases taken
      assumption
    · cases taken
  · intro added
    rw [added]

theorem grow_append (grown : c.grow blocks = some d)
    (added : Chain.addBlock block.header.timestamp 1 block d = .ok true d') :
    c.grow (blocks ++ [block]) = some d' := by
  have taken : List.foldlM take d [block] = some d' := by
    simp only [List.foldlM_cons, List.foldlM_nil, take_eq_some.mpr added]
    rfl
  rw [grow, List.foldlM_append]
  exact Option.bind_eq_some_iff.mpr ⟨d, grown, taken⟩

theorem grow_cons : c.grow (block :: blocks) = some d ↔
    ∃ c', Chain.addBlock block.header.timestamp 1 block c = .ok true c' ∧
      c'.grow blocks = some d := by
  simp only [← take_eq_some]
  exact Option.bind_eq_some_iff

theorem Sane.taken (sane : c.Sane) (added : Chain.addBlock now depth block c = .ok true c') :
    c'.Sane := by
  rcases sane.anchored.added added with ⟨s, t, p, alike, applied, rfl⟩
  exact sane.extended alike applied

theorem Reads.grow (reads : c.Reads c') (sane : c.Sane) (grown : c.grow blocks = some d) :
    ∃ d', c'.grow blocks = some d' ∧ d.Sane ∧ d.Reads d' := by
  induction blocks generalizing c c' with
  | nil =>
      cases grown
      exact ⟨c', rfl, sane, reads⟩
  | cons block blocks ih =>
      rcases grow_cons.mp grown with ⟨e, added, rest⟩
      rcases reads.takes sane added le_rfl 0 with ⟨e', added', between⟩
      rcases ih between (sane.taken added) rest with ⟨d', grown', last⟩
      exact ⟨d', grow_cons.mpr ⟨e', added', grown'⟩, last⟩

end Replicas

end Chain

namespace Node

section Tracked

variable {S R : Type} [IPSet S] [Radix R Address] [FirstAddress S] [Platform] [Hashlib] [Bls]
  [NodeConfig] [TrieKeys S] [TrieRoot] [Poststate] [StateRoot S] [Signing] {op op' : Operator}
  {n n' m : Node S R} {e : Event} {svc svc' : Service S R} {g : GenesisData}
  {blocks : List Block} {meets meets' : Node S R → Event → Prop}

theorem handled_chain (sane : n.service.chain.Sane) (handled : handle op e n = .ok () m) :
    (taken op n e = [] ∧ n.service.chain.Reads m.service.chain) ∨
      ∃ block c c' now depth, taken op n e = [block] ∧ n.service.chain.Reads c ∧
        Chain.addBlock now depth block c = .ok true c' ∧ c'.Reads m.service.chain := by
  cases passed : handed op n e with
  | none =>
      have nothing : taken op n e = [] := by simp only [taken, passed]
      exact Or.inl ⟨nothing, (handle_moves handled).reads passed⟩
  | some given =>
      rcases given with ⟨block, p⟩
      rcases handed_scans passed with ⟨s, alike, same⟩
      have scanned : n.service.chain.Reads p.service.chain := by
        rw [same]
        exact Chain.reads_state alike
      have anchored := (scanned.sane sane).anchored
      rcases Service.addBlock_cases anchored (handed_added passed handled) with
        ⟨_, t, q, -, -, called, reads⟩ | ⟨⟨c, refused⟩, reads⟩
      · have one : taken op n e = [block] := by simp only [taken, passed, called]
        exact Or.inr ⟨block, _, _, _, _, one, scanned, called, reads⟩
      · have nothing : taken op n e = [] := by simp only [taken, passed, refused]
        exact Or.inl ⟨nothing, scanned.trans reads⟩

theorem Run.grown (sane : svc.chain.Sane) (run : Run op svc meets blocks n) :
    ∃ c, svc.chain.grow blocks = some c ∧ c.Sane ∧ c.Reads n.service.chain := by
  induction run with
  | start started =>
      rcases start_ok started with ⟨head, key, group, d, -, -, -, -, rfl⟩
      exact ⟨svc.chain, rfl, sane, .refl _⟩
  | @step blocks n m run e turn met handled ih =>
      rcases ih with ⟨c, grown, sane, reads⟩
      have here := reads.sane sane
      rcases handled_chain here handled with
        ⟨nothing, kept⟩ | ⟨block, d, d', now, depth, one, scanned, called, kept⟩
      · rw [nothing, List.append_nil]
        exact ⟨c, grown, sane, reads.trans kept⟩
      · rcases (reads.trans scanned).symm.takes (scanned.sane here) called le_rfl 0 with
          ⟨c', added, reads'⟩
        rw [one]
        exact ⟨c', Chain.grow_append grown added, sane.taken added, reads'.symm.trans kept⟩

/-- Two processes that have taken the same blocks hold the same chain, whatever else they were
sent and in whatever order, and do the same with every further block that is due. -/
theorem processes_agree (reachable : svc.Reachable g) (same : svc.chain.Reads svc'.chain)
    (run : Run op svc meets blocks n) (run' : Run op' svc' meets' blocks n') :
    n.service.chain.Reads n'.service.chain ∧
      ∀ (block : Block) (now now' depth depth' : Nat),
        block.header.timestamp ≤ now → block.header.timestamp ≤ now' →
          Chain.Answers (Chain.addBlock now (depth + 1) block n.service.chain)
            (Chain.addBlock now' (depth' + 1) block n'.service.chain) := by
  have sane := reachable.ready.sane
  rcases run.grown sane with ⟨c, grown, here, reads⟩
  rcases run'.grown (same.sane sane) with ⟨c', grown', -, reads'⟩
  rcases same.grow sane grown with ⟨d, grown'', -, between⟩
  rw [grown'] at grown''
  cases grown''
  have agree := reads.symm.trans (between.trans reads')
  exact ⟨agree, fun block now now' depth depth' due due' =>
    agree.addBlock (reads.sane here) due due'⟩

end Tracked

end Node

namespace Sample.Watched

open Sample Sample.Recovered Node

/-- One process takes the first block in the bootstrap, the other in the main loop. -/
theorem processes_agree_one : ∃ (svc : Service AddressRanges (PrefixTable Address))
    (n n' : Node AddressRanges (PrefixTable Address)), svc.Reachable genesis ∧
      Node.Run op svc (fun _ _ => True) [block1] n ∧
      Node.Run op svc (fun _ _ => True) [block1] n' ∧
      n.service.chain.Reads n'.service.chain := by
  rcases start_sits with ⟨svc, n, m, reachable, -, -, started, atStart, turn, begun, inLoop, later,
    boot⟩
  have run : Node.Run op svc (fun _ _ => True) [] n := .start started
  rcases atStart.boots1 with ⟨-, n', booted, taken, -⟩
  have booting := run.step (.bootstrapBlock 10 1 block1) turn.symm trivial booted
  have looping := run.step .finishBootstrap turn.symm trivial begun
  rcases inLoop.receives1 boot with ⟨-, m', adopted, taken', -⟩
  have looping := looping.step (.block 10 1 block1) later.symm trivial adopted
  rw [taken] at booting
  rw [taken'] at looping
  have agree := Node.processes_agree reachable (Chain.Reads.refl _) booting looping
  exact ⟨svc, n', m', reachable, booting, looping, agree.1⟩

end Sample.Watched

end IPchain
