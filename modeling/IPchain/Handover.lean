import IPchain.Readiness
import IPchain.Stream

/-! No share is lost: every share from the network is handed to the consensus object once. -/

namespace IPchain

open Lib Platform

namespace ShareCache

theorem futureBls_storeFutureBls (cache : ShareCache) (share : Share) (number : Nat) :
    (cache.storeFutureBls share).futureBls number =
      if number = share.blockNumber then cache.futureBls number ++ [share]
      else cache.futureBls number := by
  simp only [futureBls, storeFutureBls]
  split
  · rename_i same
    subst same
    rw [AList.lookup_insert]
    rfl
  · rename_i other
    rw [AList.lookup_insert_ne other]

theorem futureBls_popFutureBls (cache : ShareCache) (popped number : Nat) :
    (cache.popFutureBls popped).futureBls number =
      if number = popped then (cache.futureBls number).dropLast else cache.futureBls number := by
  simp only [popFutureBls]
  split
  · rename_i same
    subst same
    rw [futureBls, AList.lookup_insert]
    rfl
  · rename_i other
    rw [futureBls, AList.lookup_insert_ne other, futureBls]

theorem futureBls_congr {cache cache' : ShareCache}
    (same : cache.blsFutureShares = cache'.blsFutureShares) (number : Nat) :
    cache.futureBls number = cache'.futureBls number := by
  rw [futureBls, futureBls, same]

end ShareCache

namespace Node

section Handover

variable {S R : Type} [IPSet S]

/-- The share that an event takes from the network. -/
def Event.obtained : Event → Option Share
  | .share _ taken => some taken
  | _ => none

def obtained (steps : List (Node S R × Event)) : List Share :=
  steps.filterMap fun step => step.2.obtained

def keepsShare (n : Node S R) (e : Event) : Option Share :=
  e.obtained.filter fun share =>
    n.dkgOn = false ∧ n.cache.inBlsCache share = false ∧ n.blockNum ≤ share.blockNumber

def keptShares (steps : List (Node S R × Event)) : List Share :=
  steps.filterMap fun step => keepsShare step.1 step.2

/-- The share that an event hands to `consensus.store_share`. -/
def handsShare (n : Node S R) : Event → Option Share
  | .share _ share =>
      if n.dkgOn = false ∧ n.cache.inBlsCache share = false ∧ share.blockNumber = n.blockNum then
        some share
      else none
  | .futureShare => (n.cache.futureBls n.blockNum).getLast?
  | _ => none

def handedShares (steps : List (Node S R × Event)) : List Share :=
  steps.filterMap fun step => handsShare step.1 step.2

def Spares (n m : Node S R) : Prop := m.consensus = n.consensus

instance : IsPreorder (Node S R) Spares where
  refl _ := rfl
  trans _ _ _ first second := Eq.trans second first

theorem spares_update {f : Node S R → Node S R} (same : ∀ n, (f n).consensus = n.consensus) :
    Advances Spares (update f) := same

theorem onConsensus_then {α : Type} (x : EStateM PyExc Consensus α)
    {next : EStateM PyExc (Node S R) Unit} (spares : Advances Spares next) (n : Node S R) :
    (finish ((onConsensus x >>= fun _ => next) n)).consensus = finish (x n.consensus) := by
  simp only [bind_run, onConsensus]
  cases x n.consensus with
  | ok a c => exact spares _
  | error e c => rfl

theorem send_consensus (now : Nat) (shares : List Share) (n : Node S R) :
    (send now shares n).consensus = n.consensus := rfl

theorem send_phase (now : Nat) (shares : List Share) (n : Node S R) :
    (send now shares n).phase = n.phase := rfl

theorem send_queue (now : Nat) (shares : List Share) (n : Node S R) (number : Nat) :
    (send now shares n).cache.futureBls number = n.cache.futureBls number :=
  ShareCache.futureBls_congr (relays_send now (fun _ _ => trivial) n).future number

variable [Radix R Address] [FirstAddress S] [Platform] [Hashlib] [Bls]
  [NodeConfig] [TrieKeys S] [TrieRoot] [Poststate] [StateRoot S] [Signing]

theorem handsShare_stores (op : Operator) (n : Node S R) {e : Event}
    (shares : e.phase = .shares ∨ e.phase = .futureShares) :
    (finish (handle op e n)).consensus =
      match handsShare n e with
      | some share => finish
          (Consensus.storeShare share (beaconMessage n.lastRandomNo n.blockNum n.count) n.consensus)
      | none => n.consensus := by
  cases e with
  | share now share =>
      simp only [handle, receiveShare, handsShare]
      by_cases on : n.dkgOn = true
      · rw [if_pos on, if_neg fun hands => by simp [hands.1] at on]
        rfl
      · by_cases dropped : n.cache.inBlsCache share = true
        · rw [if_neg on, if_pos dropped, if_neg fun hands => by simp [hands.2.1] at dropped]
          rfl
        · rw [if_neg on, if_neg dropped]
          by_cases due : share.blockNumber = n.blockNum
          · rw [if_pos due, if_pos ⟨by simpa using on, by simpa using dropped, due⟩]
            exact onConsensus_then _ (spares_update (send_consensus now [share])) n
          · have kept : ¬(n.dkgOn = false ∧ n.cache.inBlsCache share = false ∧
                share.blockNumber = n.blockNum) := fun hands => due hands.2.2
            rw [if_neg due, if_neg kept]
            have sends : Advances Spares (update (send now [share]) : EStateM PyExc (Node S R) _) :=
              spares_update (send_consensus now [share])
            have waits : Advances Spares (update fun n => { n with
                cache := n.cache.storeFutureBls share } : EStateM PyExc (Node S R) _) :=
              spares_update fun _ => rfl
            split
            · have both := waits.bind fun _ => sends
              exact both n
            · exact sends n
  | noShare => rfl
  | futureShare =>
      simp only [handle, takeFutureShare, handsShare]
      cases (n.cache.futureBls n.blockNum).getLast? with
      | none => rfl
      | some share => exact onConsensus_then _ (spares_update fun _ => rfl) _
  | bootstrapBlock | finishBootstrap | block | noBlock | tx | noTx | sign | userTx | query
  | blockQuery | watch | trigger | dkgShare | noDkgShare => simp [Event.phase] at shares

/-- What the loop does with a share from the network while no key generation is on. -/
inductive Takes (share : Share) (n m : Node S R) : Prop where
  | drops (known : n.cache.inBlsCache share = true) (same : m = n)
  | relays (new : n.cache.inBlsCache share = false) (phase : m.phase = n.phase)
      (sent : m.sent = n.sent ++ [.share share])
      (queue : ∀ number, m.cache.futureBls number =
        if n.blockNum < share.blockNumber ∧ number = share.blockNumber then
          n.cache.futureBls number ++ [share]
        else n.cache.futureBls number)

omit [Radix R Address] [FirstAddress S] [TrieKeys S] [TrieRoot] [Poststate] [StateRoot S]
  [Signing] in
theorem receiveShare_takes {now : Nat} {share : Share} {n m : Node S R} (off : n.dkgOn = false)
    (done : receiveShare now share n = .ok () m) : Takes share n m := by
  simp only [receiveShare, off, Bool.false_eq_true, if_false] at done
  split at done
  · rename_i known
    cases done
    exact .drops known rfl
  · rename_i new
    have new : n.cache.inBlsCache share = false := by simpa using new
    have sends {k : Node S R} (phase : k.phase = n.phase) (sent : k.sent = n.sent)
        (queue : ∀ number, k.cache.futureBls number =
          if n.blockNum < share.blockNumber ∧ number = share.blockNumber then
            n.cache.futureBls number ++ [share]
          else n.cache.futureBls number) : Takes share n (send now [share] k) := by
      refine .relays new ((send_phase now [share] k).trans phase) ?_ fun number => ?_
      · rw [← sent]
        rfl
      · rw [send_queue, queue]
    split at done
    · rename_i due
      obtain ⟨b, q, stored, rest⟩ := bind_eq_ok.mp done
      obtain ⟨c, run, rfl⟩ := onConsensus_eq_ok.mp stored
      cases rest
      refine sends rfl rfl fun number => ?_
      rw [if_neg fun ahead => by omega]
    · split at done
      · rename_i ahead
        cases done
        refine sends rfl rfl fun number => ?_
        rw [ShareCache.futureBls_storeFutureBls]
        simp only [ahead, true_and]
      · rename_i past
        cases done
        refine sends rfl rfl fun number => ?_
        rw [if_neg fun ahead => past ahead.1]

inductive Shortens (n m : Node S R) : Prop where
  | empty (empty : n.cache.futureBls n.blockNum = []) (same : m = { n with phase := .watch })
  | pops (share : Share) (last : (n.cache.futureBls n.blockNum).getLast? = some share)
      (phase : m.phase = n.phase) (sent : m.sent = n.sent)
      (queue : ∀ number, m.cache.futureBls number =
        if number = n.blockNum then (n.cache.futureBls number).dropLast
        else n.cache.futureBls number)

omit [Radix R Address] [FirstAddress S] [TrieKeys S] [TrieRoot] [Poststate] [StateRoot S]
  [Signing] in
theorem takeFutureShare_shortens {n m : Node S R} (done : takeFutureShare n = .ok () m) :
    Shortens n m := by
  simp only [takeFutureShare] at done
  split at done
  · rename_i empty
    cases done
    exact .empty (List.getLast?_eq_none_iff.mp empty) rfl
  · rename_i share last
    obtain ⟨b, q, stored, rest⟩ := bind_eq_ok.mp done
    obtain ⟨c, run, rfl⟩ := onConsensus_eq_ok.mp stored
    cases rest
    exact .pops share last rfl rfl (ShareCache.futureBls_popFutureBls n.cache n.blockNum)

/-- The runs of a process whose steps all meet a condition, with the state before each event. -/
inductive History (op : Operator) (svc : Service S R) (meets : Node S R → Event → Prop) :
    List (Node S R × Event) → Node S R → Prop
  | start {now : Nat} {n : Node S R} (started : start op now svc = .ok n) :
      History op svc meets [] n
  | step {steps : List (Node S R × Event)} {n m : Node S R} (history : History op svc meets steps n)
      (e : Event) (turn : e.phase = n.phase) (met : meets n e) (handled : handle op e n = .ok () m) :
      History op svc meets (steps ++ [(n, e)]) m

/-- A share comes while no key generation is on, and the cache knows its signature from this very
share or not at all. -/
def Hears (n : Node S R) (e : Event) : Prop :=
  ∀ share, e.obtained = some share →
    n.dkgOn = false ∧ (n.cache.inBlsCache share = true ↔ Message.share share ∈ n.sent)

/-- The share was handed over as often as it should be, or still waits for its block number. No
iteration at this number gets past the shares before. -/
structure HandedOver (steps : List (Node S R × Event)) (n : Node S R) (share : Share)
    (owed : Nat) : Prop where
  moment : ∀ step ∈ steps, handsShare step.1 step.2 = some share →
    step.1.blockNum = share.blockNumber
  times : (handedShares steps).count share +
    (n.cache.futureBls share.blockNumber).count share = owed
  settled : n.phase = .watch → n.blockNum = share.blockNumber →
    (handedShares steps).count share = owed

/-- A share that the node has made was stored when it was made. -/
def owed (n : Node S R) (share : Share) : Nat := if Message.share share ∈ n.sent then 0 else 1

/-- `create_shares` has made the share, for the block number of the node, and has handed it to
`store_share` after the ones before it. -/
def HandedOwn (m : Node S R) (share : Share) : Prop :=
  let msg := beaconMessage m.lastRandomNo m.blockNum 0
  share.blockNumber = m.blockNum ∧ ∃ c d d' b before after,
    Consensus.createShares m.lastRandomNo m.blockNum 0 c =
      .ok (before ++ share :: after) m.consensus ∧
    Consensus.storeShares msg before { c with msg := msg } = .ok () d ∧
    Consensus.storeShare share msg d = .ok b d' ∧
    Consensus.storeShares msg after d' = .ok () m.consensus

structure Accounts (steps : List (Node S R × Event)) (n : Node S R) : Prop where
  numbered : ∀ number, ∀ share ∈ n.cache.futureBls number, share.blockNumber = number
  tally : ∀ share, (handedShares steps).count share +
    (n.cache.futureBls share.blockNumber).count share = (keptShares steps).count share
  empty : n.phase = .watch → n.cache.futureBls n.blockNum = []
  moment : ∀ step ∈ steps, ∀ share, handsShare step.1 step.2 = some share →
    step.1.blockNum = share.blockNumber
  sent : ∀ step ∈ steps, ∀ share, Message.share share ∈ step.1.sent → Message.share share ∈ n.sent
  order : steps.Pairwise fun earlier later => ∀ share,
    Message.share share ∈ earlier.1.sent → Message.share share ∈ later.1.sent
  new : ∀ step ∈ steps, ∀ share, keepsShare step.1 step.2 = some share →
    Message.share share ∉ step.1.sent
  kept : ∀ share ∈ keptShares steps, Message.share share ∈ n.sent
  nodup : (keptShares steps).Nodup

structure Carries (n : Node S R) (e : Event) (m : Node S R) : Prop where
  numbered : ∀ number, ∀ share ∈ m.cache.futureBls number, share.blockNumber = number
  tally : ∀ share, (handsShare n e).toList.count share +
    (m.cache.futureBls share.blockNumber).count share =
      (n.cache.futureBls share.blockNumber).count share + (keepsShare n e).toList.count share
  empty : m.phase = .watch → m.cache.futureBls m.blockNum = []
  moment : ∀ share, handsShare n e = some share → n.blockNum = share.blockNumber
  sent : ∀ share, Message.share share ∈ n.sent → Message.share share ∈ m.sent
  new : ∀ share, keepsShare n e = some share → Message.share share ∉ n.sent
  kept : ∀ share, keepsShare n e = some share → Message.share share ∈ m.sent

omit [IPSet S] [Radix R Address] [FirstAddress S] [Platform] [Hashlib] [Bls]
  [NodeConfig] [TrieKeys S] [TrieRoot] [Poststate] [StateRoot S] [Signing] in
theorem filterMap_snoc {α β : Type} (f : α → Option β) (items : List α) (last : α) :
    (items ++ [last]).filterMap f = items.filterMap f ++ (f last).toList := by
  rw [List.filterMap_append]
  cases found : f last with
  | none => simp [found]
  | some b => simp [found]

omit [Radix R Address] [FirstAddress S] [Platform] [Hashlib] [Bls] [NodeConfig] [TrieKeys S]
  [TrieRoot] [Poststate] [StateRoot S] [Signing] in
theorem Accounts.step {steps : List (Node S R × Event)} {n m : Node S R} {e : Event}
    (accounts : Accounts steps n) (carries : Carries n e m) : Accounts (steps ++ [(n, e)]) m := by
  have hands : handedShares (steps ++ [(n, e)]) =
      handedShares steps ++ (handsShare n e).toList := by
    rw [handedShares, filterMap_snoc]
    rfl
  have kept : keptShares (steps ++ [(n, e)]) = keptShares steps ++ (keepsShare n e).toList := by
    rw [keptShares, filterMap_snoc]
    rfl
  refine ⟨carries.numbered, fun share => ?_, carries.empty, ?_, ?_, ?_, ?_, ?_, ?_⟩
  · rw [hands, kept, List.count_append, List.count_append, ← accounts.tally share]
    have tally := carries.tally share
    omega
  · simp only [List.forall_mem_append, List.forall_mem_singleton]
    exact ⟨accounts.moment, carries.moment⟩
  · simp only [List.forall_mem_append, List.forall_mem_singleton]
    exact ⟨fun step mem share sent => carries.sent share (accounts.sent step mem share sent),
      carries.sent⟩
  · rw [List.pairwise_append]
    refine ⟨accounts.order, List.pairwise_singleton _ _, fun earlier mem later last => ?_⟩
    cases List.mem_singleton.mp last
    exact accounts.sent earlier mem
  · simp only [List.forall_mem_append, List.forall_mem_singleton]
    exact ⟨accounts.new, carries.new⟩
  · rw [kept]
    intro share mem
    rcases List.mem_append.mp mem with before | now
    · exact carries.sent share (accounts.kept share before)
    · exact carries.kept share (by simpa using now)
  · rw [kept]
    cases keep : keepsShare n e with
    | none => simpa using accounts.nodup
    | some share =>
        refine List.nodup_append.mpr ⟨accounts.nodup, List.nodup_singleton share, ?_⟩
        intro other before last mem same
        have last : other = share := same.trans (List.mem_singleton.mp mem)
        rw [last] at before
        exact carries.new share keep (accounts.kept share before)

section Steps

variable {op : Operator} {n m : Node S R} {e : Event}

omit [Radix R Address] [FirstAddress S] [Platform] [Hashlib] [Bls] [NodeConfig] [TrieKeys S]
  [TrieRoot] [Poststate] [StateRoot S] [Signing] in
theorem keepsShare_eq {share : Share} : keepsShare n e = some share ↔ e.obtained = some share ∧
    n.dkgOn = false ∧ n.cache.inBlsCache share = false ∧ n.blockNum ≤ share.blockNumber := by
  simp only [keepsShare, Option.filter_eq_some_iff, decide_eq_true_eq]

omit [Radix R Address] [FirstAddress S] [Platform] [Hashlib] [Bls] [NodeConfig] [TrieKeys S]
  [TrieRoot] [Poststate] [StateRoot S] [Signing] in
theorem handsShare_new {now : Nat} {share : Share} (off : n.dkgOn = false)
    (new : n.cache.inBlsCache share = false) : handsShare n (.share now share) =
      if share.blockNumber = n.blockNum then some share else none := by
  simp only [handsShare, off, new, true_and]

omit [Radix R Address] [FirstAddress S] [Platform] [Hashlib] [Bls] [NodeConfig] [TrieKeys S]
  [TrieRoot] [Poststate] [StateRoot S] [Signing] in
theorem keepsShare_new {now : Nat} {share : Share} (off : n.dkgOn = false)
    (new : n.cache.inBlsCache share = false) : keepsShare n (.share now share) =
      if n.blockNum ≤ share.blockNumber then some share else none := by
  simp only [keepsShare, Event.obtained, Option.filter_some, off, new, true_and, decide_eq_true_eq]

omit [Radix R Address] [FirstAddress S] [Platform] [Hashlib] [Bls] [NodeConfig] [TrieKeys S]
  [TrieRoot] [Poststate] [StateRoot S] [Signing] in
theorem carries_of_relays (relays : Relays (fun _ => True) n m)
    (watch : n.phase ≠ .watch ∨ m.phase ≠ .watch) (idle : e.obtained = none) (hands : handsShare n e = none)
    (numbered : ∀ number, ∀ share ∈ n.cache.futureBls number, share.blockNumber = number) :
    Carries n e m := by
  have queue := ShareCache.futureBls_congr relays.future
  have keeps : keepsShare n e = none := by
    rw [keepsShare, idle]
    rfl
  refine ⟨fun number share mem => ?_, fun share => ?_, fun phase => ?_, fun share given => ?_,
    relays.sent, fun share given => ?_, fun share given => ?_⟩
  · rw [queue] at mem
    exact numbered number share mem
  · rw [hands, keeps, queue, Nat.add_comm]
  · rcases watch with before | after
    · exact absurd (relays.watch phase) before
    · exact absurd phase after
  · rw [hands] at given
    cases given
  · rw [keeps] at given
    cases given
  · rw [keeps] at given
    cases given

omit [Radix R Address] [FirstAddress S] [Platform] [Hashlib] [Bls] [NodeConfig] [TrieKeys S]
  [TrieRoot] [Poststate] [StateRoot S] [Signing] in
theorem carries_of_takes {now : Nat} {share : Share} (takes : Takes share n m)
    (off : n.dkgOn = false)
    (known : n.cache.inBlsCache share = true ↔ Message.share share ∈ n.sent)
    (turn : n.phase = .shares)
    (numbered : ∀ number, ∀ share ∈ n.cache.futureBls number, share.blockNumber = number) :
    Carries n (.share now share) m := by
  cases takes with
  | drops dropped same =>
      subst same
      have kept : keepsShare m (.share now share) = none := by
        simp [keepsShare, Event.obtained, dropped]
      have hands : handsShare m (.share now share) = none := by
        simp [handsShare, dropped]
      refine ⟨numbered, fun other => ?_, fun phase => ?_, fun other given => ?_,
        fun _ sent => sent, fun other given => ?_, fun other given => ?_⟩
      · rw [hands, kept, Nat.add_comm]
      · rw [turn] at phase
        cases phase
      · rw [hands] at given
        cases given
      · rw [kept] at given
        cases given
      · rw [kept] at given
        cases given
  | relays new phase sent queue =>
      have unsent : Message.share share ∉ n.sent := by
        rw [← known, new]
        exact Bool.false_ne_true
      have only {other : Share} (given : keepsShare n (.share now share) = some other) :
          other = share := by
        have taken := (keepsShare_eq.mp given).1
        simpa [Event.obtained] using taken.symm
      refine ⟨fun number other mem => ?_, fun other => ?_, fun watch => ?_, fun other given => ?_,
        fun other before => ?_, fun other given => ?_, fun other given => ?_⟩
      · rw [queue] at mem
        split at mem
        · rename_i ahead
          rcases List.mem_append.mp mem with waiting | last
          · exact numbered number other waiting
          · rw [List.mem_singleton.mp last]
            exact ahead.2.symm
        · exact numbered number other mem
      · rw [queue, handsShare_new off new, keepsShare_new off new]
        rcases Nat.lt_trichotomy n.blockNum share.blockNumber with ahead | due | past
        · rw [if_neg ahead.ne', if_pos ahead.le]
          by_cases same : other = share
          · subst same
            rw [if_pos ⟨ahead, rfl⟩, List.count_append, Option.toList_none, List.count_nil,
              Nat.zero_add]
            rfl
          · have apart : [share].count other = 0 :=
              List.count_eq_zero.mpr fun mem => same (List.mem_singleton.mp mem)
            rw [Option.toList_some, apart, Option.toList_none, List.count_nil, Nat.zero_add]
            split
            · rw [List.count_append, apart]
            · rfl
        · rw [if_pos due.symm, if_pos due.le, if_neg fun ahead => due.not_lt ahead.1, Nat.add_comm]
        · rw [if_neg past.ne, if_neg past.not_ge, if_neg fun ahead => past.not_gt ahead.1,
            Nat.add_comm]
      · rw [phase, turn] at watch
        cases watch
      · simp only [handsShare, off, new, true_and] at given
        split at given
        · rename_i due
          cases given
          exact due.symm
        · cases given
      · rw [sent]
        exact List.mem_append_left _ before
      · rw [only given]
        exact unsent
      · rw [only given, sent]
        exact List.mem_append_right _ (List.mem_singleton_self _)

omit [Radix R Address] [FirstAddress S] [Platform] [Hashlib] [Bls] [NodeConfig] [TrieKeys S]
  [TrieRoot] [Poststate] [StateRoot S] [Signing] in
theorem carries_of_shortens (shortens : Shortens n m) (turn : n.phase = .futureShares)
    (numbered : ∀ number, ∀ share ∈ n.cache.futureBls number, share.blockNumber = number) :
    Carries n .futureShare m := by
  have kept : keepsShare n .futureShare = none := rfl
  cases shortens with
  | empty empty same =>
      subst same
      have hands : handsShare n .futureShare = none := by
        rw [handsShare, empty]
        rfl
      refine ⟨numbered, fun other => ?_, fun _ => empty, fun other given => ?_,
        fun _ sent => sent, fun other given => ?_, fun other given => ?_⟩
      · rw [hands, kept, Nat.add_comm]
      · rw [hands] at given
        cases given
      · cases given
      · cases given
  | pops share last phase sent queue =>
      have hands : handsShare n .futureShare = some share := last
      have split := List.dropLast_append_getLast? share last
      refine ⟨fun number other mem => ?_, fun other => ?_, fun watch => ?_, fun other given => ?_,
        fun other before => ?_, fun other given => ?_, fun other given => ?_⟩
      · rw [queue] at mem
        split at mem
        · exact numbered number other (List.mem_of_mem_dropLast mem)
        · exact numbered number other mem
      · rw [hands, kept, queue]
        split
        · rename_i due
          rw [due, ← split, List.dropLast_concat, List.count_append, Nat.add_comm]
          rfl
        · rename_i apart
          have other : [share].count other = 0 := by
            refine List.count_eq_zero.mpr fun mem => apart ?_
            rw [List.mem_singleton.mp mem]
            exact numbered n.blockNum share (List.mem_of_getLast? last)
          rw [Option.toList_some, other, Nat.add_comm]
          rfl
      · rw [phase, turn] at watch
        cases watch
      · rw [hands] at given
        cases given
        exact (numbered n.blockNum share (List.mem_of_getLast? last)).symm
      · rw [sent]
        exact before
      · cases given
      · cases given

theorem leaves_watch (turn : e.phase = n.phase) (handled : handle op e n = .ok () m) :
    n.phase ≠ .watch ∨ m.phase ≠ .watch := by
  by_cases before : n.phase = .watch
  · rw [before] at turn
    cases e with
    | watch now =>
        injection handled with _ same
        exact Or.inr (same ▸ Phase.noConfusion)
    | bootstrapBlock | finishBootstrap | block | noBlock | tx | noTx | sign | userTx | query
    | blockQuery | share | noShare | futureShare | trigger | dkgShare | noDkgShare => cases turn
  · exact Or.inl before

theorem carries_handle (turn : e.phase = n.phase) (hears : Hears n e)
    (handled : handle op e n = .ok () m)
    (numbered : ∀ number, ∀ share ∈ n.cache.futureBls number, share.blockNumber = number) :
    Carries n e m := by
  by_cases taken : ∃ now share, e = .share now share
  · obtain ⟨now, share, rfl⟩ := taken
    obtain ⟨off, known⟩ := hears share rfl
    exact carries_of_takes (receiveShare_takes off handled) off known turn.symm numbered
  · by_cases waits : e = .futureShare
    · subst waits
      exact carries_of_shortens (takeFutureShare_shortens handled) turn.symm numbered
    · have other now share (same : e = .share now share) : False := taken ⟨now, share, same⟩
      have relays := (relays_handle op waits other).ok handled
      have idle : e.obtained = none ∧ handsShare n e = none := by
        cases e with
        | share now share => exact (other now share rfl).elim
        | futureShare => exact (waits rfl).elim
        | bootstrapBlock | finishBootstrap | block | noBlock | tx | noTx | sign | userTx | query
        | blockQuery | noShare | watch | trigger | dkgShare | noDkgShare => exact ⟨rfl, rfl⟩
      exact carries_of_relays relays (leaves_watch turn handled) idle.1 idle.2 numbered

omit [Radix R Address] [FirstAddress S] [TrieKeys S] [TrieRoot] [Poststate] [StateRoot S]
  [Signing] in
theorem newRound_own {now : Nat} (begun : newRound now n = .ok () m) {share : Share}
    (sent : Message.share share ∈ m.sent) : Message.share share ∈ n.sent ∨ m.HandedOwn share := by
  simp only [newRound] at begun
  split at begun
  · obtain ⟨shares, p, first, rest⟩ := bind_eq_ok.mp begun
    obtain ⟨c, created, rfl⟩ := onConsensus_eq_ok.mp first
    cases rest
    rcases List.mem_append.mp sent with old | own
    · exact Or.inl old
    · obtain ⟨made, stored⟩ := Consensus.createShares_ok created
      have mem : share ∈ shares := by simpa using own
      obtain ⟨before, after, rfl⟩ := List.append_of_mem mem
      rw [Consensus.storeShares_append] at stored
      obtain ⟨_, d, earlier, rest⟩ := bind_eq_ok.mp stored
      obtain ⟨b, d', now, later⟩ := bind_eq_ok.mp rest
      exact Or.inr ⟨Consensus.newShares_number made mem, n.consensus, d, d', b, before, after,
        created, earlier, now, later⟩
  · cases begun
    exact Or.inl sent

theorem sent_step (hears : Hears n e) (handled : handle op e n = .ok () m) {share : Share}
    (sent : Message.share share ∈ m.sent) :
    Message.share share ∈ n.sent ∨ e.obtained = some share ∨ m.HandedOwn share := by
  by_cases quiet : e.quiet = true
  · have relays : Relays (fun _ => False) n m := (relays_quiet op quiet).ok handled
    exact (relays.new share sent).imp_right False.elim
  cases e with
  | share now taken =>
      cases receiveShare_takes (hears taken rfl).1 handled with
      | drops known same => exact Or.inl (same ▸ sent)
      | relays new phase grown queue =>
          rw [grown] at sent
          rcases List.mem_append.mp sent with old | own
          · exact Or.inl old
          · cases List.mem_singleton.mp own
            exact Or.inr (Or.inl rfl)
  | futureShare =>
      cases takeFutureShare_shortens handled with
      | empty empty same => exact Or.inl (by rwa [same] at sent)
      | pops taken last phase same queue => exact Or.inl (same ▸ sent)
  | block now depth block =>
      obtain ⟨res, p, checked, rest⟩ := bind_eq_ok.mp handled
      have relays : Relays (fun _ => False) n p := (relays_checkBlock block).ok checked
      cases res with
      | false =>
          cases rest
          exact (relays.new share sent).imp_right False.elim
      | true =>
          obtain ⟨svc, head, signer, added, found, selected, begun⟩ := adoptBlock_ok rest
          rcases newRound_own begun sent with old | own
          · exact (relays.new share old).imp_right False.elim
          · exact Or.inr (Or.inr own)
  | sign now wait depth =>
      obtain ⟨_, q, signed, rest⟩ := bind_eq_ok.mp handled
      cases rest
      obtain ⟨made, p, first, adopted⟩ := bind_eq_ok.mp signed
      have relays : Relays (fun _ => False) n p := (relays_makeBlock op now depth).ok first
      cases made with
      | none =>
          cases adopted
          exact (relays.new share sent).imp_right False.elim
      | some block =>
          obtain ⟨svc, signer, added, selected, begun⟩ := adoptOwn_ok adopted
          rcases newRound_own begun sent with old | own
          · have old : Message.share share ∈ p.sent := by simpa using old
            exact (relays.new share old).imp_right False.elim
          · exact Or.inr (Or.inr own)
  | bootstrapBlock | finishBootstrap | noBlock | tx | noTx | userTx | query | blockQuery | noShare
  | watch | trigger | dkgShare | noDkgShare => exact absurd rfl quiet

end Steps

variable {op : Operator} {svc : Service S R} {steps : List (Node S R × Event)} {m : Node S R}

omit [Radix R Address] [FirstAddress S] [TrieRoot] [Poststate] [StateRoot S] [Signing] in
theorem accounts_start {now : Nat} (started : start op now svc = .ok m) :
    Accounts ([] : List (Node S R × Event)) m := by
  obtain ⟨head, key, group, d, -, -, -, -, rfl⟩ := start_ok started
  refine ⟨fun _ _ mem => ?_, fun _ => rfl, fun watch => ?_, fun _ mem => ?_, fun _ mem => ?_,
    List.Pairwise.nil, fun _ mem => ?_, fun _ mem => ?_, List.nodup_nil⟩
  · cases mem
  · cases watch
  · cases mem
  · cases mem
  · cases mem
  · cases mem

theorem History.accounts (history : History op svc Hears steps m) : Accounts steps m := by
  induction history with
  | start started => exact accounts_start started
  | step history e turn met handled accounts =>
      exact accounts.step (carries_handle turn met handled accounts.numbered)

theorem History.meets {meets : Node S R → Event → Prop} (history : History op svc meets steps m) :
    ∀ step ∈ steps, meets step.1 step.2 := by
  induction history with
  | start started => exact fun _ mem => nomatch mem
  | step history e turn met handled all =>
      simp only [List.forall_mem_append, List.forall_mem_singleton]
      exact ⟨all, met⟩

theorem History.before {meets : Node S R → Event → Prop} (history : History op svc meets steps m)
    {before after : List (Node S R × Event)} {k : Node S R} {e : Event}
    (split : steps = before ++ (k, e) :: after) : History op svc meets before k := by
  induction history generalizing after with
  | start started => simp at split
  | @step steps n m history e' turn met handled ih =>
      rcases List.eq_nil_or_concat after with rfl | ⟨rest, last, rfl⟩
      · obtain ⟨rfl, same⟩ := List.append_inj' split rfl
        cases same
        exact history
      · rw [List.concat_eq_append, ← List.cons_append, ← List.append_assoc] at split
        exact ih (List.append_inj' split rfl).1

theorem History.own (history : History op svc Hears steps m) {share : Share}
    (sent : Message.share share ∈ m.sent) : share ∈ obtained steps ∨
      ∃ step ∈ steps, ∃ n, handle op step.2 step.1 = .ok () n ∧ n.HandedOwn share := by
  induction history with
  | start started =>
      obtain ⟨head, key, group, d, -, -, -, -, rfl⟩ := start_ok started
      cases sent
  | @step steps n m history e turn met handled ih =>
      rcases sent_step met handled sent with old | taken | own
      · rcases ih old with brought | ⟨step, mem, made⟩
        · exact Or.inl (by rw [obtained, filterMap_snoc]; exact List.mem_append_left _ brought)
        · exact Or.inr ⟨step, List.mem_append_left _ mem, made⟩
      · refine Or.inl ?_
        rw [obtained, filterMap_snoc, taken]
        exact List.mem_append_right _ (List.mem_singleton_self share)
      · exact Or.inr ⟨(n, e), List.mem_append_right _ (List.mem_singleton_self _), m, handled, own⟩

omit [Radix R Address] [FirstAddress S] [Platform] [Hashlib] [Bls] [NodeConfig] [TrieKeys S]
  [TrieRoot] [Poststate] [StateRoot S] [Signing] in
theorem obtained_of_kept {steps : List (Node S R × Event)} {share : Share}
    (mem : share ∈ keptShares steps) : share ∈ obtained steps := by
  obtain ⟨step, member, kept⟩ := List.mem_filterMap.mp mem
  exact List.mem_filterMap.mpr ⟨step, member, (keepsShare_eq.mp kept).1⟩

omit [Radix R Address] [FirstAddress S] [Platform] [Hashlib] [Bls] [NodeConfig] [TrieKeys S]
  [TrieRoot] [Poststate] [StateRoot S] [Signing] in
theorem handsShare_phase {n : Node S R} {e : Event} {share : Share}
    (hands : handsShare n e = some share) : e.phase = .shares ∨ e.phase = .futureShares := by
  cases e with
  | share | noShare => exact Or.inl rfl
  | futureShare => exact Or.inr rfl
  | bootstrapBlock | finishBootstrap | block | noBlock | tx | noTx | sign | userTx | query
  | blockQuery | watch | trigger | dkgShare | noDkgShare => cases hands

/-- Every share that is not taken from the network for a second time and does not come too late is
handed over once. If the node has made it, it was `create_shares` that handed it over. -/
theorem share_handed_once (history : History op svc Hears steps m)
    {before after : List (Node S R × Event)} {k : Node S R} {now : Nat} {share : Share}
    (split : steps = before ++ (k, .share now share) :: after) (fresh : share ∉ obtained before)
    (due : k.blockNum ≤ share.blockNumber) : HandedOver steps m share (owed k share) ∧
      (∀ step ∈ steps, handsShare step.1 step.2 = some share →
        (finish (handle op step.2 step.1)).consensus = finish (Consensus.storeShare share
          (beaconMessage step.1.lastRandomNo step.1.blockNum step.1.count) step.1.consensus)) ∧
      (Message.share share ∈ k.sent → ∃ step ∈ before, ∃ n,
        handle op step.2 step.1 = .ok () n ∧ n.HandedOwn share) := by
  have accounts := history.accounts
  have heard := history.meets (k, .share now share) (by simp [split]) share rfl
  have kept : (keptShares steps).count share = owed k share := by
    have parts : keptShares steps = keptShares before ++
        ((keepsShare k (.share now share)).toList ++ keptShares after) := by
      rw [split, keptShares, List.filterMap_append, List.filterMap_cons]
      cases keep : keepsShare k (.share now share) with
      | none => rfl
      | some other => rfl
    have early : (keptShares before).count share = 0 :=
      List.count_eq_zero.mpr fun mem => fresh (obtained_of_kept mem)
    by_cases made : Message.share share ∈ k.sent
    · have dropped : keepsShare k (.share now share) = none := by
        simp [keepsShare, Event.obtained, heard.2.mpr made]
      have late : (keptShares after).count share = 0 := by
        refine List.count_eq_zero.mpr fun mem => ?_
        obtain ⟨step, member, kept⟩ := List.mem_filterMap.mp mem
        have order := accounts.order
        rw [split, List.pairwise_append, List.pairwise_cons] at order
        have sent := order.2.1.1 step member share made
        exact accounts.new step (by simp [split, member]) share kept sent
      rw [parts, List.count_append, List.count_append, early, late, dropped, owed, if_pos made]
      rfl
    · have new : k.cache.inBlsCache share = false := by
        rw [← Bool.not_eq_true, heard.2]
        exact made
      have kept : keepsShare k (.share now share) = some share := by
        rw [keepsShare_new heard.1 new, if_pos due]
      rw [owed, if_neg made]
      refine List.count_eq_one_of_mem accounts.nodup ?_
      rw [parts, kept]
      exact List.mem_append_right _ (List.mem_append_left _ (List.mem_singleton_self share))
  have own (made : Message.share share ∈ k.sent) :=
    ((history.before split).own made).resolve_left fresh
  have stores (step : Node S R × Event) (hands : handsShare step.1 step.2 = some share) := by
    have stored := handsShare_stores op step.1 (handsShare_phase hands)
    rwa [hands] at stored
  refine ⟨⟨fun step mem hands => accounts.moment step mem share hands, ?_, fun watch there => ?_⟩,
    fun step _ => stores step, own⟩
  · rw [accounts.tally, kept]
  · have tally := accounts.tally share
    rw [← there, accounts.empty watch, kept] at tally
    exact tally

end Handover

end Node

namespace Sample.Watched

open Sample Sample.Recovered Node

def laterShare : Share := ⟨some (owner 1), [1], 1⟩
def dueShare : Share := ⟨some (owner 1), [1], 0⟩

def atShares (svc : Service AddressRanges (PrefixTable Address)) :
    Node AddressRanges (PrefixTable Address) :=
  { Node.fresh svc 10 first [0x31] [owner 1] group ⟨.v4, 0, origin_bound⟩ with
    timestamp := 1
    lastRandomNo := encodeHex first.randomNumber
    fromBootstrap := true
    processed := 0
    blockNum := first.number
    sent := [.blocks []]
    phase := .shares }

theorem first_shares (meets : Node AddressRanges (PrefixTable Address) → Event → Prop)
    (quiet : ∀ n e, e.obtained = none → meets n e) :
    ∃ (svc : Service AddressRanges (PrefixTable Address))
      (steps : List (Node AddressRanges (PrefixTable Address) × Event)), svc.Reachable genesis ∧
        History op svc meets steps (atShares svc) ∧ obtained steps = [] ∧
        handedShares steps = [] := by
  obtain ⟨svc, n, reachable, roots, started, fresh, pool, watches, begun⟩ := start_loop
  have next {n m : Node AddressRanges (PrefixTable Address)} (e : Event)
      (history : ∃ steps, History op svc meets steps n ∧ obtained steps = [] ∧
        handedShares steps = []) (other : e.phase ≠ .shares ∧ e.phase ≠ .futureShares)
      (turn : e.phase = n.phase) (handled : handle op e n = .ok () m) :
      ∃ steps, History op svc meets steps m ∧ obtained steps = [] ∧ handedShares steps = [] := by
    obtain ⟨steps, history, nothing, none⟩ := history
    have idle : e.obtained = Option.none ∧ handsShare n e = Option.none := by
      cases e with
      | share | noShare => exact absurd rfl other.1
      | futureShare => exact absurd rfl other.2
      | bootstrapBlock | finishBootstrap | block | noBlock | tx | noTx | sign | userTx | query
      | blockQuery | watch | trigger | dkgShare | noDkgShare => exact ⟨rfl, rfl⟩
    refine ⟨_, history.step e turn (quiet n e idle.1) handled, ?_, ?_⟩
    · rw [obtained, filterMap_snoc, idle.1]
      exact congrArg (· ++ []) nothing
    · rw [handedShares, filterMap_snoc, idle.2]
      exact congrArg (· ++ []) none
  have begins := next .finishBootstrap ⟨[], .start started, rfl, rfl⟩ ⟨by decide, by decide⟩
    (by rw [fresh]; rfl) begun
  have idles := idles_until_shares
    (fun e history _ _ other turn _ handled => next e history other turn handled) begins rfl
    (by rw [fresh]; exact watches.head) (by decide)
  obtain ⟨steps, history, nothing, none⟩ := idles
  rw [fresh] at history
  exact ⟨svc, steps, reachable, history, nothing, none⟩

theorem send_known {n : Node AddressRanges (PrefixTable Address)} {share other : Share}
    (same : other.signature = share.signature) :
    (send 10 [share] n).cache.inBlsCache other = true := by
  obtain ⟨c, cleared, kept⟩ := cleared_future n.cache 10
  have known : other.signature ∈ c.blsShareCache ++ [share.signature] := by
    rw [same]
    exact List.mem_append_right _ (List.mem_singleton_self _)
  rw [send, List.foldl_cons, List.foldl_nil, ShareCache.storeBls, cleared]
  exact decide_eq_true known

/-- The share for the block now is lost: the cache knows its signature from another share. -/
theorem share_lost : ∃ (svc : Service AddressRanges (PrefixTable Address))
    (before after : List (Node AddressRanges (PrefixTable Address) × Event))
    (k m : Node AddressRanges (PrefixTable Address)), svc.Reachable genesis ∧
      History op svc (fun _ _ => True) (before ++ (k, .share 10 dueShare) :: after) m ∧
      dueShare ∉ obtained before ∧ k.blockNum ≤ dueShare.blockNumber ∧ owed k dueShare = 1 ∧
      m.phase = .watch ∧ m.blockNum = dueShare.blockNumber ∧
      (handedShares (before ++ (k, .share 10 dueShare) :: after)).count dueShare = 0 ∧
      m.cache.futureBls dueShare.blockNumber = [] := by
  obtain ⟨svc, steps, reachable, history, nothing, none⟩ :=
    first_shares (fun _ _ => True) fun _ _ _ => trivial
  have queued : handle op (.share 10 laterShare) (atShares svc) = .ok () (send 10 [laterShare]
      { atShares svc with cache := (atShares svc).cache.storeFutureBls laterShare }) := rfl
  have history := history.step (.share 10 laterShare) rfl trivial queued
  have taken : obtained (steps ++ [(atShares svc, Event.share 10 laterShare)]) = [laterShare] := by
    rw [obtained, filterMap_snoc]
    exact congrArg (· ++ [laterShare]) nothing
  have handed : handedShares (steps ++ [(atShares svc, Event.share 10 laterShare)]) = [] := by
    rw [handedShares, filterMap_snoc]
    exact congrArg (· ++ []) none
  obtain ⟨k, same⟩ : ∃ k, k = send 10 [laterShare] { atShares svc with
    cache := (atShares svc).cache.storeFutureBls laterShare } := ⟨_, rfl⟩
  rw [← same] at history
  have phase : k.phase = .shares := by
    rw [same, send_phase]
    rfl
  have off : k.dkgOn = false ∧ k.blockNum = 0 ∧
      k.sent = [.blocks [], .share laterShare] := by
    rw [same]
    exact ⟨rfl, rfl, rfl⟩
  have known : k.cache.inBlsCache dueShare = true := by
    rw [same]
    exact send_known rfl
  have empty : k.cache.futureBls 0 = [] := by
    rw [same, send_queue, ShareCache.futureBls_storeFutureBls]
    rfl
  have dropped : handle op (.share 10 dueShare) k = .ok () k := by
    simp only [handle, receiveShare, off.1, known, Bool.false_eq_true, if_false, if_true]
  have history := history.step (.share 10 dueShare) phase.symm trivial dropped
  have history := history.step .noShare phase.symm trivial rfl
  have watched : handle op .futureShare { k with phase := .futureShares } =
      .ok () { k with phase := .watch } := by
    simp only [handle, takeFutureShare, off.2.1, empty, List.getLast?_nil]
  have history := history.step .futureShare rfl trivial watched
  rw [List.append_assoc, List.append_assoc] at history
  refine ⟨svc, steps ++ [(atShares svc, .share 10 laterShare)],
    [(k, .noShare), ({ k with phase := .futureShares }, .futureShare)], k, { k with phase := .watch },
    reachable, history, ?_, off.2.1.le, ?_, rfl, off.2.1, ?_, empty⟩
  · rw [taken]
    decide
  · rw [owed, off.2.2]
    decide
  · rw [handedShares, List.filterMap_append, ← handedShares, handed]
    simp [handsShare, known, empty, off.2.1]

theorem share_handed_once_due : ∃ (svc : Service AddressRanges (PrefixTable Address))
    (steps : List (Node AddressRanges (PrefixTable Address) × Event))
    (m : Node AddressRanges (PrefixTable Address)), svc.Reachable genesis ∧
      History op svc Hears steps m ∧ HandedOver steps m dueShare 1 ∧
      (handedShares steps).count dueShare = 1 := by
  obtain ⟨svc, steps, reachable, history, nothing, none⟩ := first_shares Hears
    fun n e idle share taken => by rw [idle] at taken; cases taken
  have ready : (atShares svc).consensus.verified = true := rfl
  have stored (msg : Bytes) : Consensus.storeShare dueShare msg (atShares svc).consensus =
      .ok false (atShares svc).consensus := by
    simp only [Consensus.storeShare, memberId_one (c := (atShares svc).consensus) rfl,
      dueShare, ready, Bool.true_eq_false, and_false, if_false]
  have handled : handle op (.share 10 dueShare) (atShares svc) =
      .ok () (send 10 [dueShare] (atShares svc)) := by
    have new : (atShares svc).cache.inBlsCache dueShare = false := rfl
    have off : (atShares svc).dkgOn = false := rfl
    have due : dueShare.blockNumber = (atShares svc).blockNum := rfl
    simp only [handle, receiveShare]
    rw [if_neg (by rw [off]; exact Bool.false_ne_true), if_neg (by rw [new]; exact Bool.false_ne_true),
      if_pos due, bind_run, onConsensus, stored]
    rfl
  have unsent : Message.share dueShare ∉ (atShares svc).sent := by
    intro mem
    cases List.mem_singleton.mp mem
  have heard : Hears (atShares svc) (.share 10 dueShare) := by
    intro share taken
    cases taken
    exact ⟨rfl, iff_of_false Bool.false_ne_true unsent⟩
  have history := history.step (.share 10 dueShare) rfl heard handled
  have history := history.step .noShare (by rw [send_phase]; rfl) (fun _ taken => by cases taken) rfl
  have empty : (send 10 [dueShare] (atShares svc)).cache.futureBls 0 = [] := by
    rw [send_queue]
    rfl
  obtain ⟨k, same⟩ : ∃ k, k = send 10 [dueShare] (atShares svc) := ⟨_, rfl⟩
  rw [← same] at history empty
  have number : k.blockNum = 0 := by
    rw [same]
    rfl
  have watched : handle op .futureShare (k.enter .futureShares) =
      .ok () { k with phase := .watch } := by
    simp only [handle, takeFutureShare, enter, number, empty, List.getLast?_nil]
  have history := history.step .futureShare rfl (fun _ taken => by cases taken) watched
  rw [List.append_assoc, List.append_assoc] at history
  have fresh : dueShare ∉ obtained steps := by
    rw [nothing]
    exact List.not_mem_nil
  obtain ⟨ended, stores, -⟩ := share_handed_once history rfl fresh (le_refl 0)
  have owes : owed (atShares svc) dueShare = 1 := if_neg unsent
  rw [owes] at ended
  exact ⟨svc, _, _, reachable, history, ended, ended.settled rfl number⟩

end Sample.Watched

end IPchain
