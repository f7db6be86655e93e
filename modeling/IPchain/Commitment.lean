import IPchain.Copies

/-! When the header of an accepted block commits to the state after it. -/

namespace IPchain

open Lib

section Roots

variable {S : Type} [IPSet S] [Platform] [TrieRoot] [StateRoot S]

theorem createTries_eq_ok {block made : Block} {s : State S} (quiet : s.journal = []) :
    createTries block s = .ok made ↔ ∃ c u, applyTransactions block.transactions ∅ s = .ok c u ∧
      made = { block with
        header := { block.header with
          txRoot := mkTransactionSha block.transactions
          stateRoot := StateRoot.stateRoot u.trie } } := by
  obtain ⟨t, cloned, same, quiet'⟩ := State.clone_quiet quiet
  simp only [createTries, cloned, bind, Except.bind]
  constructor
  · intro done
    split at done
    · cases done
    · rename_i c v run
      cases done
      obtain ⟨u, run', trie, -⟩ := applyTransactions_trie quiet' quiet same run
      exact ⟨c, u, run', by rw [trie]⟩
  · rintro ⟨c, u, run, rfl⟩
    obtain ⟨v, run', trie, -⟩ := applyTransactions_trie quiet quiet' same.symm run
    rw [run']
    simp only [trie]

variable {R : Type} [Radix R Address] [Poststate]

/-- The header of a block that becomes the head has the root of the state after it exactly
when it has the root that `_create_tries` gives the block on the state before it. -/
theorem accepted_commits_iff {g : GenesisData} {blocks : List Block} {c c' : Chain S R}
    (reachable : c.Reachable g blocks) {block : Block} {now depth : Nat}
    (added : Chain.addBlock now depth block c = .ok true c') :
    block.header.stateRoot = StateRoot.stateRoot c'.state.trie ↔
      ∃ made, createTries block c.state = .ok made ∧
        block.header.stateRoot = made.header.stateRoot := by
  have quiet := reachable.sane.quiet
  obtain ⟨s, t, p, alike, applied, rfl⟩ := reachable.sane.anchored.added added
  obtain ⟨-, cached, u, loop, rfl, -⟩ := applyBlock_eq_ok.mp applied
  obtain ⟨v, loop', trie, -⟩ :=
    applyTransactions_trie (alike.journal.trans quiet) quiet alike.trie loop
  have after : (c.extended block (u.addBlockHeader block.header) p).state.trie = v.trie := trie.symm
  rw [after]
  constructor
  · intro commits
    exact ⟨_, (createTries_eq_ok quiet).mpr ⟨cached, v, loop', rfl⟩, commits⟩
  · rintro ⟨made, tries, commits⟩
    obtain ⟨c', w, loop'', rfl⟩ := (createTries_eq_ok quiet).mp tries
    rw [loop'] at loop''
    cases loop''
    exact commits

end Roots

section Sample

open Sample

theorem createTries_empty (block : Block) {s : State AddressRanges} (quiet : s.journal = [])
    (empty : block.transactions = []) :
    createTries block s = .ok { block with
      header := { block.header with
        txRoot := mkTransactionSha block.transactions
        stateRoot := StateRoot.stateRoot s.trie } } := by
  have loop : applyTransactions block.transactions ∅ s = .ok ∅ s := by
    rw [empty]
    rfl
  exact (createTries_eq_ok quiet).mpr ⟨∅, s, loop, rfl⟩

theorem accepted_commits_first : ∃ c c' : Chain AddressRanges (PrefixTable Address),
    c.Reachable genesis6 [] ∧ Chain.addBlock 2 1 (firstBlock []) c = .ok true c' ∧
      (firstBlock []).header.stateRoot = StateRoot.stateRoot c'.state.trie := by
  rcases start_of_passes (fun _ => true) (by decide) with
    ⟨s, rows, built, ⟨c, reachable, rfl, -⟩, based, -⟩
  have sane := reachable.sane
  have tries := createTries_empty (firstBlock []) sane.quiet rfl
  rcases sane.accepts_empty (a := alice) rfl (by decide) (based []) rfl le_rfl 0 with
    ⟨t, p, added, -⟩
  have root : (founded genesis6).stateRoot = StateRoot.stateRoot c.state.trie := by
    rw [founded_eq built]
    rfl
  exact ⟨c, _, reachable, added, (accepted_commits_iff reachable added).mpr ⟨_, tries, root⟩⟩

def uncommitted : Block :=
  { firstBlock [] with
    header := { (firstBlock []).header with stateRoot := List.replicate 32 1 } }

theorem uncommitted_accepted : ∃ c c' : Chain AddressRanges (PrefixTable Address),
    c.Reachable genesis6 [] ∧ Chain.addBlock 2 1 uncommitted c = .ok true c' ∧
      uncommitted.header.stateRoot ≠ StateRoot.stateRoot c'.state.trie := by
  rcases start_of_passes
      (fun g => decide (List.replicate 32 (1 : UInt8) ≠ StateRoot.stateRoot g.1.trie))
      (by decide) with ⟨s, rows, built, ⟨c, reachable, rfl, -⟩, based, differs⟩
  have sane := reachable.sane
  have signed : uncommitted.signer = .ok alice := rfl
  rcases sane.accepts_empty signed (by decide) (based []) rfl le_rfl 0 with ⟨t, p, added, -⟩
  refine ⟨c, _, reachable, added, fun commits => of_decide_eq_true differs ?_⟩
  -- the root that the block would get is that of the accounts before it
  rcases (accepted_commits_iff reachable added).mp commits with ⟨made, tries, same⟩
  cases (createTries_empty uncommitted sane.quiet rfl).symm.trans tries
  exact same

end Sample

end IPchain
